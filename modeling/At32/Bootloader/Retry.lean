import At32.Bootloader.Install

/-! Downloads that the host gives up and begins again. Nothing of an attempt is cleared but by
the packets of the next one: the parameters are joined to the earlier ones, and the write
pointer stays where the last chunk left it.
-/

namespace At32.Bootloader

open Flash NorFlash Transducer

variable {board : Board}

/-- A session that another download to the same region may follow. -/
def State.Open (region : AppProgramLocation) (s : State) : Prop := s.Idle ∧ s.CoveredBy region

/-- Some of the packets of a download to a region, in order from its first one. -/
structure Attempt (board : Board) (region : AppProgramLocation) where
  download : Download board
  same : download.region = region
  packets : Nat

/-- The packets of an attempt. -/
def Attempt.parts {region : AppProgramLocation} (attempt : Attempt board region)
    : List (Part board.ops.packetSize) :=
  attempt.download.parts.take attempt.packets

-----------------------------------------------------------------------------------------
-- Packets at any point of a session
-----------------------------------------------------------------------------------------

/-- Data packets change no parameters. -/
theorem recvData_appProgram (ops : BlTestFuncOps) (s : State)
    : (recvData ops s).1.appProgram = s.appProgram := by
  have write : (recvDataWrite ops s).1.appProgram = s.appProgram := by
    simp only [recvDataWrite]
    split <;> rfl
  have finish (s : State) : (recvDataFinish s).1.appProgram = s.appProgram := by
    simp only [recvDataFinish]
    split <;> rfl
  exact (finish _).trans write

/-- Only the reset command resets. -/
theorem resetMcu_of_handle {ops : BlTestFuncOps} {s : State} {kind : FrameKind}
    (reset : Call.resetMcu ∈ (handle ops s kind).2)
    : kind = .command ∧ s.fp.tag = RESET_MCU := by
  cases kind with
  | data =>
      simp only [handle, recvData, recvDataWrite, recvDataFinish] at reset
      split at reset
      all_goals
        split at reset
        all_goals simp [ackPacket, genericResponsePacket] at reset
  | command =>
      refine ⟨rfl, by_contra fun other => ?_⟩
      simp only [handle, analysisCommandTag] at reset
      split at reset
      · simp [flashEraseRegion, ackPacket, genericResponsePacket, eraseCalls] at reset
      · simp [writeMemory, ackPacket, genericResponsePacket] at reset
      · unfold propertyTag at reset
        split at reset
        all_goals simp [commandResponsePacket, ackPacket] at reset
      · rename_i tag
        exact other tag
      · simp at reset

/-- A packet that leaves a session open and does not reset, whatever else it is answered with.
-/
def KeepsOpen (region : AppProgramLocation) (part : Part board.ops.packetSize) : Prop :=
  ∀ s : State,
    s.Open region
    → ∃ t calls,
        run (analysisPacket board.ops) s part.2.bytes = .ok (t, calls)
        ∧ t.Open region
        ∧ Call.resetMcu ∉ calls

/-- A frame that is no reset command does not reset. -/
theorem run_frame_noReset {s t : State} (idle : s.Idle) {frame : Frame board.ops.packetSize}
    (valid : frame.Valid) {calls : List Call}
    (other : frame.kind = .command → (s.received frame).fp.tag ≠ RESET_MCU)
    (fed : run (analysisPacket board.ops) s frame.bytes = .ok (t, calls))
    : Call.resetMcu ∉ calls := by
  rw [run_frame_valid board.ops board.packetRoom s idle frame valid] at fed
  obtain ⟨rfl, rfl⟩ := Prod.mk.inj (Except.ok.inj fed)
  intro member
  rcases List.mem_cons.mp member with dispatch | handled
  · cases kind : frame.kind <;> rw [kind] at dispatch <;> cases dispatch
  · obtain ⟨command, tag⟩ := resetMcu_of_handle handled
    exact other command tag

/-- A command of a download leaves the session open, since the parameters behind it are those of
the region.
-/
theorem command_keepsOpen {region : AppProgramLocation} (role : Role)
    {frame : Frame board.ops.packetSize} {tag : UInt8} (names : frame.Names tag region)
    (other : tag ≠ RESET_MCU)
    (taken
      : ∀ s : State,
          s.Open region
          → ∃ pointer, PartTaken board.ops region s (role, .frame frame) (region, pointer))
    : KeepsOpen region (role, .frame frame) := by
  intro s opened
  obtain ⟨pointer, t, calls, fed, ⟨idle, session⟩, _⟩ := taken s opened
  have appProgram := (Prod.mk.inj session).1
  have tagged : (s.received frame).fp.tag = tag := received_tag board.packetRoom s names.tagged
  refine ⟨t, calls, fed, ⟨idle, ?_, ?_⟩, ?_⟩
  · rw [appProgram, UInt32.or_self]
  · rw [appProgram, UInt32.or_self]
  · exact run_frame_noReset opened.1 names.valid (fun _ => by rwa [tagged]) fed

/-- The commands between the packets of a download leave a session open, by cases on them. -/
theorem interlude_keepsOpen (region : AppProgramLocation)
    (interlude : Interlude board.ops.packetSize)
    : KeepsOpen region (Role.interlude, interlude.packet) := by
  intro s opened
  obtain ⟨t, calls, fed, ⟨idle, session⟩, _⟩ :=
    interlude_taken board.ops board.packetRoom region s opened.1 interlude
  refine ⟨t, calls, fed, ⟨idle, opened.2.of_session session⟩, ?_⟩
  cases interlude with
  | ping =>
      have same := (run_ping board.ops s opened.1).symm.trans fed
      obtain ⟨_, rfl⟩ := Prod.mk.inj (Except.ok.inj same)
      simp [pingResponsePacket]
  | ack =>
      have same := (run_ack board.ops s opened.1).symm.trans fed
      obtain ⟨_, rfl⟩ := Prod.mk.inj (Except.ok.inj same)
      exact List.not_mem_nil
  | getProperty frame command =>
      have tagged : (s.received frame).fp.tag = GET_PROPERTY :=
        received_tag board.packetRoom s command.tagged
      exact run_frame_noReset opened.1 command.valid (fun _ => by rw [tagged]; decide) fed

/-- A chunk is taken wherever the write pointer is, which may write it at a wrong place or not at
all.
-/
theorem chunk_keepsOpen (region : AppProgramLocation) (role : Role)
    {frame : Frame board.ops.packetSize} (chunk : frame.IsChunk)
    : KeepsOpen region (role, .frame frame) := by
  intro s opened
  have fed := run_frame_valid board.ops board.packetRoom s opened.1 frame chunk.valid
  have quiet := run_frame_noReset opened.1 chunk.valid (fun command => by
    rw [chunk.kind] at command
    cases command) fed
  rw [chunk.kind] at fed quiet
  have appProgram := recvData_appProgram board.ops (s.received frame)
  refine ⟨_, _, fed, ⟨State.idle_of_sameParser (recvData_sameParser board.ops _) ⟨rfl, rfl⟩, ?_⟩,
    quiet⟩
  exact ⟨by rw [handle, appProgram]; exact opened.2.start, by
    rw [handle, appProgram]; exact opened.2.count⟩

/-- The packets of a turn leave a session open when its frame does. -/
theorem turn_keepsOpen {region : AppProgramLocation}
    {accepted : Frame board.ops.packetSize → Prop} (role : Role)
    (turn : Turn board.ops.packetSize accepted)
    (keeps : KeepsOpen region (role, .frame turn.frame))
    : ∀ part ∈ turn.parts role, KeepsOpen region part := by
  intro part member
  rcases List.mem_append.mp member with between | frame
  · obtain ⟨interlude, _, rfl⟩ := List.mem_map.mp between
    exact interlude_keepsOpen region interlude
  · obtain rfl := List.mem_singleton.mp frame
    exact keeps

theorem transferParts_keepsOpen (region : AppProgramLocation) (offset : Nat)
    (transfers : List (Turn board.ops.packetSize Frame.IsChunk))
    : ∀ part ∈ transferParts offset transfers, KeepsOpen region part := by
  induction transfers generalizing offset with
  | nil => exact fun part member => (List.not_mem_nil member).elim
  | cons turn rest ih =>
      intro part member
      rcases List.mem_append.mp member with here | later
      · exact turn_keepsOpen _ turn (chunk_keepsOpen region _ turn.accepts) part here
      · exact ih _ part later

/-- Every packet of a download leaves a session open, at whatever point of it. -/
theorem Download.part_keepsOpen (d : Download board)
    : ∀ part ∈ d.parts, KeepsOpen d.region part := by
  intro part member
  simp only [Download.parts, List.mem_append, List.mem_flatMap] at member
  rcases member with ((⟨turn, _, erase⟩ | write) | transfer) | closing
  · refine turn_keepsOpen .erase turn
      (command_keepsOpen .erase turn.accepts (by decide) fun s opened => ?_) part erase
    exact ⟨_, erase_taken board.ops board.packetRoom d.region s opened.1 opened.2 turn.frame
      turn.accepts⟩
  · refine turn_keepsOpen .write d.write
      (command_keepsOpen .write d.write.accepts (by decide) fun s opened => ?_) part write
    exact ⟨_, write_taken board.ops board.packetRoom d.region s opened.1 opened.2 d.write.frame
      d.write.accepts⟩
  · exact transferParts_keepsOpen d.region 0 d.transfers part transfer
  · obtain ⟨interlude, _, rfl⟩ := List.mem_map.mp closing
    exact interlude_keepsOpen d.region interlude

/-- Packets that keep the session open do not reset, by induction on them. -/
theorem trace_noReset {region : AppProgramLocation} {s t : State}
    {parts : List (Part board.ops.packetSize)} {answers : List (List Call)}
    (opened : s.Open region) (keeps : ∀ part ∈ parts, KeepsOpen region part)
    (fed
      : trace (run (analysisPacket board.ops)) s (parts.map fun part => part.2.bytes)
        = .ok (t, answers))
    : Call.resetMcu ∉ answers.flatten := by
  induction parts generalizing s answers with
  | nil =>
      obtain ⟨_, rfl⟩ := Prod.mk.inj (Except.ok.inj fed)
      exact List.not_mem_nil
  | cons part rest ih =>
      obtain ⟨next, first, later, head, tail, rfl⟩ := trace_cons_iff.mp fed
      obtain ⟨_, _, again, opened', quiet⟩ := keeps part List.mem_cons_self s opened
      rw [head] at again
      obtain ⟨rfl, rfl⟩ := Prod.mk.inj (Except.ok.inj again)
      rw [List.flatten_cons, List.mem_append, not_or]
      exact ⟨quiet, ih opened' (fun part member => keeps part (List.mem_cons_of_mem _ member)) tail⟩

/-- The first packets of a list that is taken are answered as their roles ask, and leave the
session open; by induction on them.
-/
theorem PartsTaken.front {region : AppProgramLocation} {s : State}
    {left right : List (Part board.ops.packetSize)} {home : State → Prop} (opened : s.Open region)
    (keeps : ∀ part ∈ left, KeepsOpen region part)
    (taken : PartsTaken board.ops region s (left ++ right) home)
    : PartsTaken board.ops region s left (State.Open region) := by
  induction left generalizing s with
  | nil => exact ⟨s, [], rfl, opened, .nil⟩
  | cons part rest ih =>
      obtain ⟨t, answers, fed, reached, answered⟩ := taken
      obtain ⟨next, calls, later, first, tail, rfl⟩ := trace_cons_iff.mp fed
      obtain ⟨answer, answered⟩ := List.forall₂_cons.mp answered
      have opened' : next.Open region := by
        obtain ⟨_, _, again, opened', _⟩ := keeps part List.mem_cons_self s opened
        rw [first] at again
        obtain ⟨rfl, _⟩ := Prod.mk.inj (Except.ok.inj again)
        exact opened'
      obtain ⟨u, given, fed', reached', answered'⟩ :=
        ih opened' (fun part member => keeps part (List.mem_cons_of_mem _ member))
          ⟨t, later, tail, reached, answered⟩
      exact ⟨u, calls :: given, trace_cons_iff.mpr ⟨next, calls, given, first, fed', rfl⟩,
        reached', .cons answer answered'⟩

-----------------------------------------------------------------------------------------
-- What attempts do to the flash
-----------------------------------------------------------------------------------------

/-- The sectors of the region are all that changes, and only erased halfwords are programmed.
-/
structure AppProgramLocation.Spares (region : AppProgramLocation) (board : Board)
    (before after : Memory UInt16)
    : Prop where
  outside
    : ∀ cell,
        2 * cell < region.flashStartAddr.toNat
        ∨ region.flashStartAddr.toNat + region.sectors board.sector * board.sector ≤ 2 * cell
        → after.cells cell = before.cells cell
  clean : Memory.CleanlyBecomes blank before after

theorem AppProgramLocation.Spares.refl (region : AppProgramLocation) (memory : Memory UInt16)
    : region.Spares board memory memory :=
  ⟨fun _ _ => rfl, .refl blank memory⟩

theorem AppProgramLocation.Spares.trans {region : AppProgramLocation}
    {first second third : Memory UInt16} (left : region.Spares board first second)
    (right : region.Spares board second third)
    : region.Spares board first third :=
  ⟨fun cell beyond => (right.outside cell beyond).trans (left.outside cell beyond),
    left.clean.trans right.clean⟩

namespace Download

variable (d : Download board)

/-- What a packet means for the flash stays in the sectors of the region. -/
theorem effect_outside {role : Role} (fits : d.Fits role) (memory : Memory UInt16) {cell : Nat}
    (beyond
      : 2 * cell < d.region.flashStartAddr.toNat
        ∨ d.region.flashStartAddr.toNat + d.region.sectors board.sector * board.sector
          ≤ 2 * cell)
    : (d.effect role memory).cells cell = memory.cells cell := by
  cases role with
  | interlude => rfl
  | write => rfl
  | erase =>
      have positive := halfSector_pos board
      have halved := d.sectors_halved
      have changes := Memory.erasePages_changesWithin blank (board.sector / 2) memory
        (d.region.flashStartAddr.toNat / board.sector) (d.region.sectors board.sector) positive
      rw [d.start_half.1] at changes
      have evenStart := d.start_half.2
      exact changes.kept cell (by omega)
  | chunk offset payload final =>
      have inside : offset + payload.length ≤ d.region.flashByteCount.toNat := fits
      have within := d.region.count_le_sectors board.sector board.sectorPositive
      have evenStart := d.start_half.2
      refine Memory.programAll_outside blank memory _ _ ?_
      rw [LittleEndian.halves_length]
      omega

/-- What a packet means for the flash adds to its log. -/
theorem effect_grows (role : Role) (memory : Memory UInt16)
    : Memory.LogsOnly (fun _ => True) memory (d.effect role memory) := by
  cases role with
  | interlude => exact .refl _ memory
  | write => exact .refl _ memory
  | erase => exact Memory.erasePages_grows blank _ memory _ _
  | chunk offset payload final => exact Memory.programAll_grows blank memory _ _

theorem effects_grow (parts : List (Part board.ops.packetSize)) (memory : Memory UInt16)
    : Memory.LogsOnly (fun _ => True) memory (d.effects parts memory) := by
  induction parts generalizing memory with
  | nil => exact .refl _ memory
  | cons part rest ih => exact (d.effect_grows part.1 memory).trans (ih _)

/-- The first packets of a download stay in the sectors of the region, and program erased
halfwords only because the whole download does.
-/
theorem effects_front (packets : Nat) (memory : Memory UInt16)
    : d.region.Spares board memory (d.effects (d.parts.take packets) memory) where
  outside := by
    intro cell beyond
    have fits : ∀ part ∈ d.parts.take packets, d.Fits part.1 := fun part member =>
      d.fits_parts part (List.mem_of_mem_take member)
    generalize d.parts.take packets = parts at fits
    induction parts generalizing memory with
    | nil => rfl
    | cons part rest ih =>
        obtain ⟨fit, fits⟩ := List.forall_mem_cons.mp fits
        exact (ih _ fits).trans (d.effect_outside fit memory beyond)
  clean := by
    have whole := (d.effects_installed memory).clean
    rw [← List.take_append_drop packets d.parts, effects_append] at whole
    exact (d.effects_grow _ memory).front (d.effects_grow _ _) whole

end Download

variable {c : Controller}

/-- An attempt is answered packet by packet like the download it is a part of, and leaves a
session that another one may follow.
-/
theorem attempt_taken {region : AppProgramLocation} (attempt : Attempt board region) (s : State)
    (opened : s.Open region)
    : PartsTaken board.ops region s attempt.parts (State.Open region) := by
  obtain ⟨d, rfl, packets⟩ := attempt
  have taken := download_taken_idle d s opened.1 opened.2
  rw [← List.take_append_drop packets d.parts] at taken
  exact taken.front opened fun part member => d.part_keepsOpen part (List.mem_of_mem_take member)

theorem attempt_spares {region : AppProgramLocation} (attempt : Attempt board region)
    (ready : c.Ready) (page : c.page = board.sector) {answers : List (List Call)}
    (answered : List.Forall₂ (PartAnswered board.ops region) attempt.parts answers)
    (f : Flash.State)
    : region.Spares board f.memory (flashAfter c answers.flatten f).memory := by
  obtain ⟨d, rfl, packets⟩ := attempt
  have effects := d.answers_effects ready page answered
    (fun part member => d.fits_parts part (List.mem_of_mem_take member)) f
  rw [effects]
  exact d.effects_front packets f.memory

/-- Attempts one after the other, by induction on them. -/
theorem attempts_taken {region : AppProgramLocation} (attempts : List (Attempt board region))
    (ready : c.Ready) (page : c.page = board.sector) (s : State) (opened : s.Open region)
    (f : Flash.State)
    : ∃ t answers,
        trace (run (analysisPacket board.ops)) s
            ((attempts.flatMap Attempt.parts).map fun part => part.2.bytes)
          = .ok (t, answers)
        ∧ t.Open region
        ∧ List.Forall₂ (PartAnswered board.ops region) (attempts.flatMap Attempt.parts) answers
        ∧ region.Spares board f.memory (flashAfter c answers.flatten f).memory := by
  induction attempts generalizing s f with
  | nil => exact ⟨s, [], rfl, opened, .nil, .refl region f.memory⟩
  | cons attempt rest ih =>
      obtain ⟨t, first, fed, opened', answered⟩ := attempt_taken attempt s opened
      have spared := attempt_spares attempt ready page answered f
      obtain ⟨u, later, fed', reached, answered', spared'⟩ :=
        ih t opened' (flashAfter c first.flatten f)
      refine ⟨u, first ++ later, ?_, reached, List.rel_append answered answered', ?_⟩
      · rw [List.flatMap_cons, List.map_append]
        exact trace_append fed fed'
      · rw [List.flatten_append, flashAfter_append]
        exact spared.trans spared'

/-- A download that the host gave up any number of times, each time after any number of its
packets and with any image for the same region, is still a download: fed whole after these
attempts, it is answered packet by packet as from power-on, its image is in the flash and the rest
of its sectors blank, nothing outside its sectors has changed since power-on, and in all attempts
together only erased halfwords were programmed.
-/
theorem retried_download_installs (d : Download board)
    (attempts : List (Attempt board d.region)) (c : Controller) (ready : c.Ready)
    (page : c.page = board.sector) (fp : FramingPacket) (f : Flash.State)
    : ∃ t given s answers,
        trace (run (analysisPacket board.ops)) (.powerOn fp)
            ((attempts.flatMap Attempt.parts).map fun part => part.2.bytes)
          = .ok (t, given)
        ∧ trace (run (analysisPacket board.ops)) t (d.parts.map fun part => part.2.bytes)
          = .ok (s, answers)
        ∧ List.Forall₂ (PartAnswered board.ops d.region) d.parts answers
        ∧ d.Installed f.memory (flashAfter c (given ++ answers).flatten f).memory
        ∧ d.BlankBehind (flashAfter c (given ++ answers).flatten f).memory
        ∧ s.blVariate.writeMemoryStart = 0 := by
  obtain ⟨t, given, fed, opened, _, spared⟩ := attempts_taken attempts ready page (.powerOn fp)
    (State.powerOn_ready fp d.region) f
  obtain ⟨s, answers, fed', ⟨_, session⟩, answered⟩ :=
    download_taken_idle d t opened.1 opened.2
  have effects := d.answers_effects ready page answered d.fits_parts
    (flashAfter c given.flatten f)
  have installed := d.effects_installed (flashAfter c given.flatten f).memory
  have behind := d.effects_blankBehind (flashAfter c given.flatten f).memory
  rw [← effects, ← flashAfter_append, ← List.flatten_append] at installed behind
  have whole := spared.trans ⟨installed.outside, installed.clean⟩
  exact ⟨t, given, s, answers, fed, fed', answered,
    ⟨installed.image, whole.outside, whole.clean⟩, behind, (Prod.mk.inj session).2⟩

/-- The smallest download, given up after its write command and begun again. -/
theorem retried_download_installs_smallest
    : ∃ t given s answers,
        trace (run (analysisPacket blTestFunc)) (.powerOn .zero)
            (([⟨smallestDownload, rfl, 3⟩].flatMap Attempt.parts).map fun part => part.2.bytes)
          = .ok (t, given)
        ∧ trace (run (analysisPacket blTestFunc)) t
            (smallestDownload.parts.map fun part => part.2.bytes)
          = .ok (s, answers)
        ∧ List.Forall₂ (PartAnswered blTestFunc smallestDownload.region) smallestDownload.parts
            answers
        ∧ smallestDownload.Installed ⟨fun _ => 0, []⟩
            (flashAfter ⟨2048, fun _ => 0⟩ (given ++ answers).flatten ⟨⟨fun _ => 0, []⟩, 0⟩).memory
        ∧ smallestDownload.BlankBehind
            (flashAfter ⟨2048, fun _ => 0⟩ (given ++ answers).flatten ⟨⟨fun _ => 0, []⟩, 0⟩).memory
        ∧ s.blVariate.writeMemoryStart = 0 :=
  retried_download_installs smallestDownload [⟨smallestDownload, rfl, 3⟩] ⟨2048, fun _ => 0⟩
    (Controller.ready_of_idle _ fun _ => rfl) rfl .zero ⟨⟨fun _ => 0, []⟩, 0⟩

end At32.Bootloader
