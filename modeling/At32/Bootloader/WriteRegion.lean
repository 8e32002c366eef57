import At32.Bootloader.Parameters
import At32.Lib.Account
import Mathlib.Order.Interval.Set.LinearOrder

/-! The region that a WriteMemory command declares, and when all data written behind the command
stay inside it.
-/

namespace At32.Bootloader

open Account BitMask LittleEndian Transducer

-----------------------------------------------------------------------------------------
-- What the accepted packets declare and send
-----------------------------------------------------------------------------------------

/-- The packets accepted so far: the start addresses of their regions joined, the region of the
last WriteMemory, and how far behind its start the data have come.
-/
structure Progress where
  kept : UInt32
  region : Option AppProgramLocation
  moved : UInt32

/-- Before any packet. -/
def Progress.none : Progress := { kept := 0, region := .none, moved := 0 }

/-- With one more packet. Bits of earlier regions that are not in the start address of a
WriteMemory show through, so its data do not begin at its start.
-/
def Progress.after (progress : Progress) : Call → Progress
  | .analysisCommandTag fp =>
      let start := fp.declared.flashStartAddr
      if fp.tag = WRITE_MEMORY then
        {
          kept := progress.kept ||| start
          region := some fp.declared
          moved := progress.kept &&& ~~~start
        }
      else if fp.tag = FLASH_ERASE_REGION then
        { progress with kept := progress.kept ||| start }
      else
        progress
  | .recvData fp => { progress with moved := progress.moved + fp.length.toUInt32 }
  | _ => progress

/-- All addresses of a write lie in the region. -/
def AppProgramLocation.Holds (region : AppProgramLocation) (addr : UInt32) (len : UInt16)
    : Prop :=
  Set.Ico addr.toNat (addr.toNat + 2 * len.toNat)
  ⊆ Set.Ico region.flashStartAddr.toNat
      (region.flashStartAddr.toNat + region.flashByteCount.toNat)

/-- A write lies in the region of the last WriteMemory. -/
def Call.Inside (progress : Progress) : Call → Prop
  | .blWriteMemory addr _ len => ∃ region, progress.region = some region ∧ region.Holds addr len
  | _ => True

/-- The whole halfwords of a data packet that is written fit into the rest of the region.
-/
def State.FitsBehind (ops : BlTestFuncOps) (progress : Progress) (s : State) (data : UInt8)
    : Prop :=
  s.Accepts data .data
  → ops.appAddress ≤ s.blVariate.writeMemoryStart
  → 2 ≤ s.fp.length.toNat
  → ∀ region ∈ progress.region,
      region.flashStartAddr.toNat + progress.moved.toNat < 2 ^ 32
      ∧ progress.moved.toNat + 2 * (s.fp.length.toNat / 2) ≤ region.flashByteCount.toNat

/-- A state as the accepted packets leave it: the pointer, where data are written at all, has
come as far as the data.
-/
structure Progress.Leads (ops : BlTestFuncOps) (progress : Progress) (s : State) : Prop where
  kept : s.appProgram.flashStartAddr = progress.kept
  pointer
    : ops.appAddress ≤ s.blVariate.writeMemoryStart
      → ∃ region,
          progress.region = some region
          ∧ s.blVariate.writeMemoryStart = region.flashStartAddr + progress.moved

/-- A write that is some way behind the start of a region. -/
theorem AppProgramLocation.holds_iff (region : AppProgramLocation) (moved : UInt32)
    (len : UInt16)
    : region.Holds (region.flashStartAddr + moved) len
      ↔ (0 < len.toNat
        → region.flashStartAddr.toNat + moved.toNat < 2 ^ 32
          ∧ moved.toNat + 2 * len.toNat ≤ region.flashByteCount.toNat) := by
  have start := region.flashStartAddr.toNat_lt
  have behind := moved.toNat_lt
  unfold Holds
  by_cases some : 0 < len.toNat
  · rw [Set.Ico_subset_Ico_iff (by omega), UInt32.toNat_add]
    omega
  · have none : len.toNat = 0 := by omega
    simp [none]

-----------------------------------------------------------------------------------------
-- One byte
-----------------------------------------------------------------------------------------

/-- Calls of handlers dispatch nothing. -/
theorem Call.FromHandler.after {call : Call} (handler : call.FromHandler) (progress : Progress)
    : progress.after call = progress := by
  cases call <;> first | rfl | exact handler.elim

/-- Calls of command handlers do not write. -/
theorem Call.FromCommand.inside {call : Call} (handler : call.FromCommand) (progress : Progress)
    : call.Inside progress := by
  cases call <;> trivial

/-- Behind an accepted packet the progress is the one with that packet. -/
theorem foldl_dispatch (ops : BlTestFuncOps) (s : State) (kind : FrameKind)
    (progress : Progress)
    : (Call.dispatch kind s.fp :: (handle ops s kind).2).foldl Progress.after progress
      = progress.after (.dispatch kind s.fp) :=
  foldl_of_forall (fun call member => (handle_fromHandler ops s kind call member).after) _

/-- A byte that completes no accepted packet neither dispatches nor writes. -/
theorem unaccepted_calls {ops : BlTestFuncOps} {s t : State} {data : UInt8} {calls : List Call}
    (unaccepted : ∀ kind, ¬ s.Accepts data kind)
    (taken : analysisPacket ops s data = .ok (t, calls))
    : ∀ call ∈ calls, ∀ progress, progress.after call = progress ∧ call.Inside progress := by
  rcases analysisPacket_cases taken with ⟨kind, accepts, _⟩ | ⟨_, prints | rfl⟩
  · exact (unaccepted kind accepts).elim
  · intro call member progress
    have print := prints call member
    cases call <;> first | exact ⟨rfl, trivial⟩ | cases print
  · simp [pingResponsePacket, Progress.after, Call.Inside]

/-- Only the parameters and the pointer matter. -/
theorem Progress.Leads.congr {ops : BlTestFuncOps} {progress : Progress} {s t : State}
    (leads : progress.Leads ops s) (parameters : t.appProgram = s.appProgram)
    (pointer : t.blVariate.writeMemoryStart = s.blVariate.writeMemoryStart)
    : progress.Leads ops t where
  kept := by rw [parameters, leads.kept]
  pointer := by
    rw [pointer]
    exact leads.pointer

/-- A command packet keeps the state in step, by cases on its tag. -/
theorem Progress.Leads.command {ops : BlTestFuncOps} {progress : Progress} {s : State}
    (leads : progress.Leads ops s)
    : (progress.after (.analysisCommandTag s.fp)).Leads ops (analysisCommandTag ops s).1 := by
  have session := analysisCommandTag_session ops s
  have joined : s.region.flashStartAddr = progress.kept ||| s.fp.declared.flashStartAddr := by
    rw [State.region, analysisAppDownloadAddr_appProgram, leads.kept]
  by_cases write : s.fp.tag = WRITE_MEMORY
  · obtain ⟨_, region, pointer⟩ := session.resolve_right fun other => other.1 write
    simp only [Progress.after, if_pos write]
    refine { kept := by rw [region, joined], pointer := fun _ => ⟨_, rfl, ?_⟩ }
    rw [pointer, joined, or_eq_add_masked]
  obtain ⟨_, _, pointer⟩ := session.resolve_left fun named => write named.1
  by_cases erase : s.fp.tag = FLASH_ERASE_REGION
  · have region := analysisCommandTag_region ops s (Or.inl erase)
    simp only [Progress.after, if_neg write, if_pos erase]
    exact { kept := by rw [region, joined], pointer := by rw [pointer]; exact leads.pointer }
  · have same : (analysisCommandTag ops s).1.appProgram = s.appProgram :=
      analysisCommandTag_noRegion ops s (not_or.mpr ⟨erase, write⟩)
    simp only [Progress.after, if_neg write, if_neg erase]
    exact leads.congr same pointer

/-- A data packet keeps the state in step: a pointer that it clears is below the application.
-/
theorem Progress.Leads.data {ops : BlTestFuncOps} (app : 0 < ops.appAddress)
    {progress : Progress} {s : State} (leads : progress.Leads ops s)
    : (progress.after (.recvData s.fp)).Leads ops (recvData ops s).1 := by
  obtain ⟨same, moved⟩ := recvData_session ops s
  refine { kept := by rw [same]; exact leads.kept, pointer := fun above => ?_ }
  rw [moved] at above ⊢
  dsimp only at above ⊢
  split at above
  · exact absurd above (UInt32.not_le.mpr app)
  · rename_i unfinished
    rw [if_neg unfinished]
    rw [(recvDataWrite_session ops s).2] at above ⊢
    split at above
    · rename_i written
      obtain ⟨region, named, pointer⟩ := leads.pointer written
      refine ⟨region, named, ?_⟩
      rw [if_pos written, pointer, UInt32.add_assoc]
      rfl
    · rename_i unwritten
      exact absurd above unwritten

/-- One byte keeps the state in step with the packets. -/
theorem Progress.Leads.step {ops : BlTestFuncOps} (app : 0 < ops.appAddress)
    {progress : Progress} {s t : State} {data : UInt8} {calls : List Call}
    (leads : progress.Leads ops s) (taken : analysisPacket ops s data = .ok (t, calls))
    : (calls.foldl Progress.after progress).Leads ops t := by
  by_cases accepted : ∃ kind, s.Accepts data kind
  · obtain ⟨kind, accepts⟩ := accepted
    rw [accepts.taken] at taken
    obtain ⟨rfl, rfl⟩ := Prod.mk.inj (Except.ok.inj taken)
    rw [foldl_dispatch]
    have completed : progress.Leads ops (s.completed data) := leads.congr rfl rfl
    cases kind with
    | command => exact completed.command
    | data => exact completed.data app
  · have unaccepted (kind : FrameKind) : ¬ s.Accepts data kind := fun accepts =>
      accepted ⟨kind, accepts⟩
    obtain ⟨same, pointer⟩ := unaccepted_session unaccepted taken
    have calm := unaccepted_calls unaccepted taken
    rw [foldl_of_forall fun call member progress => (calm call member progress).1]
    exact leads.congr same pointer

/-- All calls of a data packet but the write are still. -/
theorem recvData_inside (ops : BlTestFuncOps) (s : State) (progress : Progress)
    : Kept Progress.after Call.Inside progress (recvData ops s).2
      ↔ (ops.appAddress ≤ s.blVariate.writeMemoryStart
        → ∃ region,
            progress.region = some region
            ∧ region.Holds s.blVariate.writeMemoryStart (s.fp.length / 2)) := by
  have ack : ∀ call ∈ ackPacket, ∀ progress, call.Inside progress := fun call member =>
    (ackPacket_fromCommand call member).inside
  have finish : ∀ call ∈ (recvDataFinish (recvDataWrite ops s).1).2, ∀ progress,
      call.Inside progress := by
    intro call member
    simp only [recvDataFinish] at member
    split at member
    · exact (genericResponsePacket_fromCommand _ 0 call member).inside
    · cases member
  have behind (progress : Progress)
      : Kept Progress.after Call.Inside progress
          (ackPacket ++ (recvDataFinish (recvDataWrite ops s).1).2) :=
    kept_append_iff.mpr ⟨kept_of_forall ack _, kept_of_forall finish _⟩
  simp only [recvData, List.append_assoc]
  rw [kept_append_iff, iff_true_intro (behind _), and_true]
  simp only [recvDataWrite]
  split
  · rename_i above
    simp only [Kept, Call.Inside, and_true, above, true_implies]
    rfl
  · rename_i below
    simp [Kept, below]

/-- The calls of one byte stay in the region exactly when the byte completes no packet that does
not fit.
-/
theorem fitsBehind_iff {ops : BlTestFuncOps} {progress : Progress} {s : State}
    (leads : progress.Leads ops s) (data : UInt8)
    : s.FitsBehind ops progress data
      ↔ ∀ t calls,
          analysisPacket ops s data = .ok (t, calls)
          → Kept Progress.after Call.Inside progress calls := by
  have half : (s.fp.length / 2).toNat = s.fp.length.toNat / 2 := UInt16.toNat_div ..
  have fits
      : s.FitsBehind ops progress data
        ↔ (s.Accepts data .data
          → ops.appAddress ≤ s.blVariate.writeMemoryStart
          → ∃ region,
              progress.region = some region
              ∧ region.Holds s.blVariate.writeMemoryStart (s.fp.length / 2)) := by
    refine imp_congr_right fun accepts => imp_congr_right fun above => ?_
    obtain ⟨region, named, pointer⟩ := leads.pointer above
    have some : 0 < s.fp.length.toNat / 2 ↔ 2 ≤ s.fp.length.toNat := by omega
    simp only [named, pointer, Option.mem_some_iff, forall_eq', Option.some.injEq,
      exists_eq_left', AppProgramLocation.holds_iff, half, some]
  rw [fits]
  constructor
  · intro holds t calls taken
    rcases analysisPacket_cases taken with ⟨kind, accepts, _, rfl⟩ | ⟨unaccepted, _⟩
    · cases kind with
      | command =>
          exact kept_of_forall (List.forall_mem_cons.mpr ⟨fun _ => trivial, fun call member =>
            (analysisCommandTag_fromCommand ops _ call member).inside⟩) _
      | data => exact ⟨trivial, (recvData_inside ops _ _).mpr (holds accepts)⟩
    · exact kept_of_forall
        (fun call member progress => (unaccepted_calls unaccepted taken call member progress).2)
        _
  · intro all accepts
    exact (recvData_inside ops (s.completed data)
      (progress.after (.recvData (s.completed data).fp))).mp (all _ _ accepts.taken).2

-----------------------------------------------------------------------------------------
-- Byte streams
-----------------------------------------------------------------------------------------

/-- What the packets that were dispatched amount to. -/
def progressOf (calls : List Call) : Progress := calls.foldl Progress.after .none

/-- Throughout a byte stream all writes lie in the region of the last WriteMemory, exactly when
every data packet that is written fits into the rest of it.
-/
theorem writes_inside_iff (board : Board) (fp : FramingPacket) (bytes : List UInt8)
    : (∀ received rest,
        bytes = received ++ rest
        → ∀ s calls,
            run (analysisPacket board.ops) (.powerOn fp) received = .ok (s, calls)
            → Kept Progress.after Call.Inside .none calls)
      ↔ ∀ received data rest,
          bytes = received ++ data :: rest
          → ∀ s calls,
              run (analysisPacket board.ops) (.powerOn fp) received = .ok (s, calls)
              → s.FitsBehind board.ops (progressOf calls) data := by
  have app : 0 < board.ops.appAddress :=
    UInt32.lt_iff_toNat_lt.mpr (Nat.lt_of_lt_of_le board.sectorPositive board.belowApp)
  have powerOn : (progressOf []).Leads board.ops (.powerOn fp) :=
    { kept := rfl, pointer := fun above => absurd above (UInt32.not_le.mpr app) }
  refine @outputs_iff_prefixes _ _ _ _ _
    (fun calls s => (progressOf calls).Leads board.ops s) _
    (fun calls s data => s.FitsBehind board.ops (progressOf calls) data) ?_ ?_ _ powerOn
    trivial bytes
  · intro sent s data t calls leads taken
    rw [progressOf, List.foldl_append]
    exact leads.step app taken
  · intro sent s data leads inside
    rw [fitsBehind_iff leads data]
    refine forall₃_congr fun t calls taken => ?_
    rw [kept_append_iff, and_iff_right inside]
    rfl

/-- WriteMemory for two bytes at 0x08009000. -/
def writeTwo : Frame blTestFunc.packetSize :=
  {
    kind := .command
    payload := [WRITE_MEMORY, 0, 0, 0x02, 0x00, 0x90, 0x00, 0x08, 0x02, 0x00, 0x00, 0x00]
    crcLow := 0xC0
    crcHigh := 0x02
    nonempty := by decide
    fits := by decide
  }

/-- A data frame of four bytes. -/
def dataFour : Frame blTestFunc.packetSize :=
  {
    kind := .data
    payload := [0x11, 0x22, 0x33, 0x44]
    crcLow := 0x22
    crcHigh := 0x3D
    nonempty := by decide
    fits := by decide
  }

/-- On the board of main.c one frame of four bytes is written over the end of a region of two.
-/
theorem writes_outside_dataFour
    : ¬ ∀ received rest,
        [
          0x5A, 0xA4, 0x0C, 0x00, 0xC0, 0x02, 0x04, 0x00, 0x00, 0x02,
          0x00, 0x90, 0x00, 0x08, 0x02, 0x00, 0x00, 0x00,
          0x5A, 0xA5, 0x04, 0x00, 0x22, 0x3D, 0x11, 0x22, 0x33, 0x44
        ] = received ++ rest
        → ∀ s calls,
            run (analysisPacket at32Board.ops) (.powerOn .zero) received = .ok (s, calls)
            → Kept Progress.after Call.Inside .none calls := by
  intro all
  obtain ⟨after, handled⟩ : ∃ t,
      t = (handle blTestFunc ((State.powerOn .zero).received writeTwo) .command).1 :=
    ⟨_, rfl⟩
  have first := run_frame_valid blTestFunc (by decide) (.powerOn .zero) ⟨rfl, rfl⟩ writeTwo
    (by decide +kernel)
  change _ = Except.ok ((handle blTestFunc ((State.powerOn .zero).received writeTwo) .command).1,
    _) at first
  rw [← handled] at first
  have idle : after.Idle :=
    State.idle_of_sameParser (handled ▸ handle_sameParser _ _ _) ⟨rfl, rfl⟩
  have second := run_frame_valid blTestFunc (by decide) after idle dataFour (by decide +kernel)
  have pointer : after.blVariate.writeMemoryStart = 0x08009000 + 0 := by
    rw [handled]
    decide +kernel
  have kept := all (writeTwo.bytes ++ dataFour.bytes) [] (by decide +kernel) _ _
    (run_append first second)
  obtain ⟨_, _, written⟩ := kept_append_iff.mp kept
  have inside := (recvData_inside blTestFunc (after.received dataFour) _).mp written
  rw [foldl_dispatch] at inside
  obtain ⟨region, named, holds⟩ := inside (by
    change blTestFunc.appAddress ≤ after.blVariate.writeMemoryStart
    rw [pointer]
    decide)
  have unchanged (progress : Progress) (fp : FramingPacket)
      : (progress.after (.dispatch dataFour.kind fp)).region = progress.region := rfl
  have declared : region = { flashStartAddr := 0x08009000, flashByteCount := 2 } := by
    rw [unchanged] at named
    exact Option.some.inj (named.symm.trans (by decide +kernel))
  have halfwords : half (lowByte dataFour.len) (highByte dataFour.len) / 2 = 2 := by decide
  change region.Holds after.blVariate.writeMemoryStart
    (half (lowByte dataFour.len) (highByte dataFour.len) / 2) at holds
  rw [halfwords] at holds
  rw [pointer, declared] at holds
  exact absurd ((AppProgramLocation.holds_iff _ 0 2).mp holds) (by decide)

end At32.Bootloader
