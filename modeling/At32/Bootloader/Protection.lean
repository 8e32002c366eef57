import At32.Bootloader.Framing
import At32.Lib.Stride

/-! What keeps the flash callbacks at or above the application, and when something does. -/

namespace At32.Bootloader

open Flash Transducer

/-- A flash callback is called for addresses that start at or above the application and,
for a write, end inside the address space.
-/
def Call.Protected (ops : BlTestFuncOps) : Call → Prop
  | .blFlashEraseRegion addr => ops.appAddress ≤ addr
  | .blWriteMemory addr _ len => ops.appAddress ≤ addr ∧ addr.toNat + 2 * len.toNat ≤ 2 ^ 32
  | _ => True

instance (ops : BlTestFuncOps) (call : Call) : Decidable (call.Protected ops) := by
  cases call <;> unfold Call.Protected <;> infer_instance

/-- The region of a command: the parameters in the packet joined to the earlier ones. -/
def State.region (s : State) : AppProgramLocation := (analysisAppDownloadAddr s).appProgram

/-- The sectors of the region, if there are any, start at or above the application and do
not wrap around the address space.
-/
def AppProgramLocation.AboveApp (ops : BlTestFuncOps) (region : AppProgramLocation) : Prop :=
  let num := sectorNum ops region.flashByteCount
  num.toNat = 0
  ∨ (ops.appAddress ≤ region.flashStartAddr
    ∧ region.flashStartAddr.toNat + ops.flashSectorSize.toNat * (num.toNat - 1) < 2 ^ 32)

/-- The packet as it is checked after its last payload byte. -/
def State.completed (s : State) (data : UInt8) : State :=
  { s with
    fp.data := s.fp.data.setIfInBounds s.blVariate.count.toNat data
    blVariate.status := .start
    blVariate.count := 0 }

/-- The byte is the last of a payload whose packet matches its check and is of this kind.
-/
structure State.Accepts (s : State) (data : UInt8) (kind : FrameKind) : Prop where
  status : s.blVariate.status = .data
  index : s.blVariate.count.toNat < LENGTH
  last : s.blVariate.count + 1 = s.blVariate.length
  matched : (s.completed data).CrcMatches s.blVariate.length
  type : s.fp.packetType = kind.packetType

instance (s : State) (data : UInt8) (kind : FrameKind) : Decidable (s.Accepts data kind) :=
  decidable_of_iff
    (s.blVariate.status = .data
      ∧ s.blVariate.count.toNat < LENGTH
      ∧ s.blVariate.count + 1 = s.blVariate.length
      ∧ (s.completed data).CrcMatches s.blVariate.length
      ∧ s.fp.packetType = kind.packetType)
    ⟨fun parts => ⟨parts.1, parts.2.1, parts.2.2.1, parts.2.2.2.1, parts.2.2.2.2⟩,
      fun accepts => ⟨accepts.1, accepts.2, accepts.3, accepts.4, accepts.5⟩⟩

/-- The byte completes no erase of a region below the application or around the end of the
address space, and no write around that end.
-/
def State.KeepsAbove (ops : BlTestFuncOps) (s : State) (data : UInt8) : Prop :=
  (s.Accepts data .command
    → (s.completed data).fp.tag = FLASH_ERASE_REGION
    → (s.completed data).region.AboveApp ops)
  ∧ (s.Accepts data .data
    → ops.appAddress ≤ s.blVariate.writeMemoryStart
    → s.blVariate.writeMemoryStart.toNat + 2 * (s.fp.length.toNat / 2) ≤ 2 ^ 32)

theorem ackPacket_protected (ops : BlTestFuncOps) : ∀ call ∈ ackPacket, call.Protected ops := by
  simp [ackPacket, Call.Protected]

theorem genericResponsePacket_protected (ops : BlTestFuncOps) (s : State) (status : UInt8)
    : ∀ call ∈ (genericResponsePacket s status).2, call.Protected ops := by
  simp [genericResponsePacket, Call.Protected]

theorem propertyTag_protected (ops : BlTestFuncOps) (s : State)
    : ∀ call ∈ (propertyTag ops s).2, call.Protected ops := by
  unfold propertyTag
  split
  all_goals simp [commandResponsePacket, ackPacket, Call.Protected]

/-- The sector loop is protected exactly when its region is above the application. -/
theorem eraseCalls_protected_iff (board : Board) (region : AppProgramLocation)
    : (∀ call ∈ eraseCalls board.ops region.flashStartAddr
          (sectorNum board.ops region.flashByteCount),
        call.Protected board.ops)
      ↔ region.AboveApp board.ops := by
  rw [AppProgramLocation.AboveApp, ← Stride.above_iff board.belowApp, eraseCalls]
  simp only [List.mem_map, List.mem_range, forall_exists_index, and_imp,
    forall_apply_eq_imp_iff₂, Call.Protected]

theorem resetMcu_protected (ops : BlTestFuncOps) (s : State)
    : ∀ call ∈ (resetMcu s).2, call.Protected ops := by
  simp only [resetMcu, List.forall_mem_append, List.forall_mem_singleton]
  exact ⟨⟨ackPacket_protected ops, genericResponsePacket_protected ops _ 0⟩, trivial⟩

/-- A command is protected unless it erases a region that is not. -/
theorem analysisCommandTag_protected_iff (board : Board) (s : State)
    : (∀ call ∈ (analysisCommandTag board.ops s).2, call.Protected board.ops)
      ↔ (s.fp.data[0] = FLASH_ERASE_REGION → s.region.AboveApp board.ops) := by
  unfold analysisCommandTag
  split
  · rename_i tag
    rw [← eraseCalls_protected_iff]
    simp only [tag, flashEraseRegion, List.forall_mem_append]
    constructor
    · rintro ⟨⟨_, erases⟩, _⟩ _
      exact erases
    · intro erases
      exact ⟨⟨ackPacket_protected _, erases rfl⟩, genericResponsePacket_protected _ _ 0⟩
  · rename_i tag
    refine iff_of_true ?_ fun erase => ?_
    · simp only [writeMemory, List.forall_mem_append]
      exact ⟨ackPacket_protected _, genericResponsePacket_protected _ _ 0⟩
    · rw [tag] at erase
      cases erase
  · rename_i tag
    refine iff_of_true (propertyTag_protected _ s) fun erase => ?_
    rw [tag] at erase
    cases erase
  · rename_i tag
    refine iff_of_true (resetMcu_protected _ s) fun erase => ?_
    rw [tag] at erase
    cases erase
  · rename_i other _ _ _
    refine iff_of_true ?_ fun erase => (other erase).elim
    simp [Call.Protected]

/-- A data packet is protected exactly when its write ends inside the address space. -/
theorem recvData_protected_iff (ops : BlTestFuncOps) (s : State)
    : (∀ call ∈ (recvData ops s).2, call.Protected ops)
      ↔ (ops.appAddress ≤ s.blVariate.writeMemoryStart
        → s.blVariate.writeMemoryStart.toNat + 2 * (s.fp.length.toNat / 2) ≤ 2 ^ 32) := by
  have finish (s : State) : ∀ call ∈ (recvDataFinish s).2, call.Protected ops := by
    simp only [recvDataFinish]
    split
    · exact genericResponsePacket_protected ops _ 0
    · simp
  have write
      : (∀ call ∈ (recvDataWrite ops s).2, call.Protected ops)
        ↔ (ops.appAddress ≤ s.blVariate.writeMemoryStart
          → s.blVariate.writeMemoryStart.toNat + 2 * (s.fp.length.toNat / 2) ≤ 2 ^ 32) := by
    simp only [recvDataWrite]
    split
    · rename_i above
      simp only [List.forall_mem_singleton, Call.Protected, above, true_and, true_implies,
        UInt16.toNat_div]
      rfl
    · simp_all
  rw [← write]
  simp only [recvData, List.forall_mem_append]
  exact ⟨fun all => all.1.1, fun all => ⟨⟨all, ackPacket_protected ops⟩, finish _⟩⟩

/-- The byte after the start byte calls nothing but a ping response. -/
theorem analysisCmd_calls (s : State) (data : UInt8)
    : (analysisCmd s data).2 = []
      ∨ (analysisCmd s data).2 = .pingResponsePacket :: pingResponsePacket := by
  unfold analysisCmd
  split <;> simp

/-- What a byte can lead to: the handler of the packet it completes, or nothing but prints
and a ping response; by cases on the status.
-/
theorem analysisPacket_cases {ops : BlTestFuncOps} {s t : State} {data : UInt8}
    {calls : List Call} (taken : analysisPacket ops s data = .ok (t, calls))
    : (∃ kind,
        s.Accepts data kind
        ∧ t = (handle ops (s.completed data) kind).1
        ∧ calls = .dispatch kind (s.completed data).fp :: (handle ops (s.completed data) kind).2)
      ∨ ((∀ kind, ¬ s.Accepts data kind)
        ∧ ((∀ call ∈ calls, call.isPrint)
          ∨ calls = .pingResponsePacket :: pingResponsePacket)) := by
  by_cases status : s.blVariate.status = .data
  · simp only [analysisPacket, status, analysisData] at taken
    split at taken
    · rename_i index
      split at taken
      · rename_i last
        rcases checkCrc_cases taken with ⟨kind, matched, type, rfl, rfl⟩ | ⟨dropped, _, prints⟩
        · exact Or.inl ⟨kind, ⟨status, index, last, matched, type⟩, rfl, rfl⟩
        · refine Or.inr ⟨fun kind accepts => ?_, Or.inl prints⟩
          rcases dropped with mismatch | other
          · exact mismatch accepts.matched
          · exact other kind accepts.type
      · rename_i more
        simp only [Except.ok.injEq, Prod.mk.injEq] at taken
        obtain ⟨_, rfl⟩ := taken
        exact Or.inr ⟨fun kind accepts => more accepts.last, Or.inl (by simp)⟩
    · cases taken
  · refine Or.inr ⟨fun kind accepts => status accepts.status, ?_⟩
    cases waiting : s.blVariate.status with
    | start =>
        simp only [analysisPacket, waiting] at taken
        split at taken
        all_goals
          simp only [Except.ok.injEq, Prod.mk.injEq] at taken
          obtain ⟨_, rfl⟩ := taken
          exact Or.inl (by simp)
    | cmd =>
        simp only [analysisPacket, waiting, Except.ok.injEq] at taken
        have called := analysisCmd_calls s data
        rw [taken] at called
        refine called.imp_left fun none call member => ?_
        rw [show calls = [] from none] at member
        cases member
    | lenLow | lenHigh | crcLow | crcHigh =>
        simp only [analysisPacket, waiting, Except.ok.injEq, Prod.mk.injEq] at taken
        obtain ⟨_, rfl⟩ := taken
        exact Or.inl (by simp)
    | data => exact (status waiting).elim

/-- The handler is called for a byte that completes a matching packet. -/
theorem State.Accepts.taken {ops : BlTestFuncOps} {s : State} {data : UInt8} {kind : FrameKind}
    (accepts : s.Accepts data kind)
    : analysisPacket ops s data
      = .ok
          ((handle ops (s.completed data) kind).1,
            .dispatch kind (s.completed data).fp
              :: (handle ops (s.completed data) kind).2) := by
  have room : s.blVariate.length.toNat ≤ LENGTH := by
    rw [← accepts.last, UInt16.toNat_add]
    exact Nat.le_trans (Nat.mod_le _ _) accepts.index
  simp only [analysisPacket, accepts.status, analysisData, accepts.index, accepts.last, if_true]
  exact checkCrc_of_matches room accepts.matched accepts.type

/-- The calls of one byte are protected exactly when it keeps above the application. -/
theorem keepsAbove_iff (board : Board) (s : State) (data : UInt8)
    : s.KeepsAbove board.ops data
      ↔ ∀ t calls,
          analysisPacket board.ops s data = .ok (t, calls)
          → ∀ call ∈ calls, call.Protected board.ops := by
  have command := analysisCommandTag_protected_iff board (s.completed data)
  have write := recvData_protected_iff board.ops (s.completed data)
  have dispatch (kind : FrameKind) (fp : FramingPacket)
      : (Call.dispatch kind fp).Protected board.ops := by
    cases kind <;> trivial
  constructor
  · intro keeps t calls taken
    rcases analysisPacket_cases taken with ⟨kind, accepts, _, rfl⟩ | ⟨_, prints | rfl⟩
    · refine List.forall_mem_cons.mpr ⟨dispatch _ _, ?_⟩
      cases kind with
      | command => exact command.mpr (keeps.1 accepts)
      | data => exact write.mpr (keeps.2 accepts)
    · intro call member
      have print := prints call member
      cases call <;> trivial
    · simp [pingResponsePacket, Call.Protected]
  · intro all
    constructor
    · intro accepts
      exact command.mp fun call member => all _ _ accepts.taken call (.tail _ member)
    · intro accepts
      exact write.mp fun call member => all _ _ accepts.taken call (.tail _ member)

/-- The flash callbacks are protected throughout a byte stream exactly when every byte of
the stream keeps above the application.
-/
theorem flash_protected_iff (board : Board) (fp : FramingPacket) (bytes : List UInt8)
    : (∀ received rest,
        bytes = received ++ rest
        → ∀ s calls,
            run (analysisPacket board.ops) (.powerOn fp) received = .ok (s, calls)
            → ∀ call ∈ calls, call.Protected board.ops)
      ↔ StepsMeet (analysisPacket board.ops) (State.KeepsAbove board.ops) (.powerOn fp)
          bytes :=
  outputs_iff_stepsMeet (keepsAbove_iff board) (.powerOn fp) bytes

/-- FlashEraseRegion for 2048 bytes at the flash base, which holds the bootloader. -/
def eraseBootloader : Frame blTestFunc.packetSize :=
  {
    kind := .command
    payload := [FLASH_ERASE_REGION, 0, 0, 0x02, 0x00, 0x00, 0x00, 0x08, 0x00, 0x08, 0x00, 0x00]
    crcLow := 0xB5
    crcHigh := 0xD1
    nonempty := by decide
    fits := by decide
  }

/-- On the board of main.c that one command erases the first sector of the bootloader. -/
theorem flash_unprotected_eraseBootloader
    : ¬ ∀ received rest,
        [
          0x5A, 0xA4, 0x0C, 0x00, 0xB5, 0xD1, 0x02, 0x00, 0x00, 0x02,
          0x00, 0x00, 0x00, 0x08, 0x00, 0x08, 0x00, 0x00
        ] = received ++ rest
        → ∀ s calls,
            run (analysisPacket at32Board.ops) (.powerOn .zero) received = .ok (s, calls)
            → ∀ call ∈ calls, call.Protected at32Board.ops := by
  intro all
  have fed := run_frame_valid blTestFunc (by decide) (.powerOn .zero) ⟨rfl, rfl⟩
    eraseBootloader (by decide +kernel)
  have erased := all _ [] (List.append_nil _).symm _ _ fed (.blFlashEraseRegion FLASH_BASE)
    (by decide +kernel)
  exact absurd erased (by decide)

end At32.Bootloader
