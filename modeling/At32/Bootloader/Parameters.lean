import At32.Bootloader.Accepted
import At32.Lib.BitMask

/-! The parameters of the region commands: when the words kept are those of the last command.
-/

namespace At32.Bootloader

open BitMask Transducer

/-- The two commands whose packets carry a region. -/
def FramingPacket.NamesRegion (fp : FramingPacket) : Prop :=
  fp.tag = FLASH_ERASE_REGION ∨ fp.tag = WRITE_MEMORY

instance (fp : FramingPacket) : Decidable fp.NamesRegion :=
  inferInstanceAs (Decidable (_ ∨ _))

/-- A packet that carries a region leaves exactly the declared words as parameters. -/
def State.SetsDeclared (ops : BlTestFuncOps) (s : State) (data : UInt8) : Prop :=
  s.Accepts data .command
  → (s.completed data).fp.NamesRegion
  → 12 ≤ s.blVariate.length.toNat
  → ∀ t calls,
      analysisPacket ops s data = .ok (t, calls)
      → t.appProgram = (s.completed data).fp.declared

/-- A packet that carries a region declares all bits that the parameters kept so far have.
-/
def State.DeclaresKept (s : State) (data : UInt8) : Prop :=
  s.Accepts data .command
  → (s.completed data).fp.NamesRegion
  → 12 ≤ s.blVariate.length.toNat
  → s.appProgram.flashStartAddr &&& ~~~ (s.completed data).fp.declared.flashStartAddr = 0
    ∧ s.appProgram.flashByteCount &&& ~~~ (s.completed data).fp.declared.flashByteCount = 0

/-- A command that carries a region keeps the joined parameters. -/
theorem analysisCommandTag_region (ops : BlTestFuncOps) (s : State)
    (carries : s.fp.NamesRegion)
    : (analysisCommandTag ops s).1.appProgram = s.region := by
  rcases carries with erase | write
  · rw [analysisCommandTag_erase ops erase]
    rfl
  · rw [analysisCommandTag_write ops write]
    rfl

/-- Other commands keep the parameters. -/
theorem analysisCommandTag_noRegion (ops : BlTestFuncOps) (s : State)
    (other : ¬ s.fp.NamesRegion)
    : (analysisCommandTag ops s).1.appProgram = s.appProgram := by
  obtain ⟨erase, write⟩ := not_or.mp other
  by_cases property : s.fp.tag = GET_PROPERTY
  · rw [analysisCommandTag_property ops property]
    unfold propertyTag
    split <;> rfl
  by_cases reset : s.fp.tag = RESET_MCU
  · rw [analysisCommandTag_reset ops reset]
    rfl
  · rw [analysisCommandTag_other ops erase write property reset]

/-- What a command does to the parameters and the pointer: WriteMemory sets both, and the
others leave the pointer and change the parameters, if at all, to the joined ones.
-/
theorem analysisCommandTag_session (ops : BlTestFuncOps) (s : State)
    : (s.fp.tag = WRITE_MEMORY
        ∧ (analysisCommandTag ops s).1.appProgram = s.region
        ∧ (analysisCommandTag ops s).1.blVariate.writeMemoryStart = s.region.flashStartAddr)
      ∨ (s.fp.tag ≠ WRITE_MEMORY
        ∧ ((analysisCommandTag ops s).1.appProgram = s.region
          ∨ (analysisCommandTag ops s).1.appProgram = s.appProgram)
        ∧ (analysisCommandTag ops s).1.blVariate.writeMemoryStart
          = s.blVariate.writeMemoryStart) := by
  unfold analysisCommandTag
  simp only [FramingPacket.tag]
  split
  · rename_i tag
    exact Or.inr ⟨by rw [tag]; decide, Or.inl rfl, rfl⟩
  · rename_i tag
    exact Or.inl ⟨tag, rfl, rfl⟩
  · rename_i tag
    have property : (propertyTag ops s).1.appProgram = s.appProgram
        ∧ (propertyTag ops s).1.blVariate = s.blVariate := by
      unfold propertyTag
      split <;> exact ⟨rfl, rfl⟩
    exact Or.inr ⟨by rw [tag]; decide, Or.inr property.1, by rw [property.2]⟩
  · rename_i tag
    exact Or.inr ⟨by rw [tag]; decide, Or.inr rfl, rfl⟩
  · rename_i other _ _
    exact Or.inr ⟨other, Or.inr rfl, rfl⟩

/-- A data packet's write changes no parameter and moves the pointer by its length. -/
theorem recvDataWrite_session (ops : BlTestFuncOps) (s : State)
    : (recvDataWrite ops s).1.appProgram = s.appProgram
      ∧ (recvDataWrite ops s).1.blVariate.writeMemoryStart
        = if ops.appAddress ≤ s.blVariate.writeMemoryStart then
            s.blVariate.writeMemoryStart + s.fp.length.toUInt32
          else
            s.blVariate.writeMemoryStart := by
  simp only [recvDataWrite]
  split <;> exact ⟨rfl, rfl⟩

/-- A data packet keeps the parameters, moves the pointer as its write does, and clears it at
the end of the region.
-/
theorem recvData_session (ops : BlTestFuncOps) (s : State)
    : (recvData ops s).1.appProgram = s.appProgram
      ∧ (recvData ops s).1.blVariate.writeMemoryStart
        = (let start := (recvDataWrite ops s).1.blVariate.writeMemoryStart
          if start = s.appProgram.flashByteCount + s.appProgram.flashStartAddr then
            0
          else
            start) := by
  have kept := (recvDataWrite_session ops s).1
  simp only [recvData, ← kept]
  generalize (recvDataWrite ops s).1 = t
  simp only [recvDataFinish]
  split <;> exact ⟨rfl, rfl⟩

/-- Joined parameters are not below the earlier nor below the declared ones. -/
theorem region_le (s : State)
    : s.appProgram.flashStartAddr.toNat ≤ s.region.flashStartAddr.toNat
      ∧ s.appProgram.flashByteCount.toNat ≤ s.region.flashByteCount.toNat
      ∧ s.fp.declared.flashByteCount.toNat ≤ s.region.flashByteCount.toNat := by
  rw [State.region, analysisAppDownloadAddr_appProgram]
  simp only [UInt32.toNat_or]
  exact ⟨Nat.left_le_or, Nat.left_le_or, Nat.right_le_or⟩

/-- One packet leaves the declared parameters exactly when it declares all kept bits. -/
theorem setsDeclared_iff (ops : BlTestFuncOps) (s : State) (data : UInt8)
    : s.SetsDeclared ops data ↔ s.DeclaresKept data := by
  have joined (carries : (s.completed data).fp.NamesRegion)
      : (analysisCommandTag ops (s.completed data)).1.appProgram
          = (s.completed data).fp.declared
        ↔ s.appProgram.flashStartAddr
            &&& ~~~ (s.completed data).fp.declared.flashStartAddr = 0
          ∧ s.appProgram.flashByteCount
            &&& ~~~ (s.completed data).fp.declared.flashByteCount = 0 := by
    rw [analysisCommandTag_region ops _ carries, State.region,
      analysisAppDownloadAddr_appProgram, AppProgramLocation.mk.injEq, or_eq_right_iff,
      or_eq_right_iff]
    rfl
  constructor
  · intro sets accepts carries long
    exact (joined carries).mp (sets accepts carries long _ _ accepts.taken)
  · intro declares accepts carries long t calls taken
    rw [accepts.taken] at taken
    obtain ⟨rfl, _⟩ := Prod.mk.inj (Except.ok.inj taken)
    exact (joined carries).mpr (declares accepts carries long)

/-- Throughout a byte stream every region command leaves exactly its own parameters,
exactly when each of them declares all bits of the parameters kept before it.
-/
theorem parameters_declared_iff (ops : BlTestFuncOps) (fp : FramingPacket)
    (bytes : List UInt8)
    : (∀ received data rest,
        bytes = received ++ data :: rest
        → ∀ s calls,
            run (analysisPacket ops) (.powerOn fp) received = .ok (s, calls)
            → s.SetsDeclared ops data)
      ↔ StepsMeet (analysisPacket ops) State.DeclaresKept (.powerOn fp) bytes := by
  rw [stepsMeet_iff_prefixes]
  simp only [setsDeclared_iff]

/-- WriteMemory for 0x800 bytes at 0x08009000. -/
def writeFirst : Frame blTestFunc.packetSize :=
  {
    kind := .command
    payload := [WRITE_MEMORY, 0, 0, 0x02, 0x00, 0x90, 0x00, 0x08, 0x00, 0x08, 0x00, 0x00]
    crcLow := 0x09
    crcHigh := 0x46
    nonempty := by decide
    fits := by decide
  }

/-- WriteMemory for 0x1000 bytes at 0x0800A000. -/
def writeSecond : Frame blTestFunc.packetSize :=
  {
    kind := .command
    payload := [WRITE_MEMORY, 0, 0, 0x02, 0x00, 0xA0, 0x00, 0x08, 0x00, 0x10, 0x00, 0x00]
    crcLow := 0x46
    crcHigh := 0xF5
    nonempty := by decide
    fits := by decide
  }

/-- After both commands the parameters are 0x1800 bytes at 0x0800B000. -/
theorem parameters_not_declared_writes
    : ¬ ∀ received data rest,
        [
          0x5A, 0xA4, 0x0C, 0x00, 0x09, 0x46, 0x04, 0x00, 0x00, 0x02,
          0x00, 0x90, 0x00, 0x08, 0x00, 0x08, 0x00, 0x00,
          0x5A, 0xA4, 0x0C, 0x00, 0x46, 0xF5, 0x04, 0x00, 0x00, 0x02,
          0x00, 0xA0, 0x00, 0x08, 0x00, 0x10, 0x00, 0x00
        ] = received ++ data :: rest
        → ∀ s calls,
            run (analysisPacket blTestFunc) (.powerOn .zero) received = .ok (s, calls)
            → s.SetsDeclared blTestFunc data := by
  intro all
  obtain ⟨after, handled⟩ : ∃ t,
      t = (handle blTestFunc ((State.powerOn .zero).received writeFirst) .command).1 :=
    ⟨_, rfl⟩
  have first := run_frame_valid blTestFunc (by decide) (.powerOn .zero) ⟨rfl, rfl⟩ writeFirst
    (by decide +kernel)
  have idle : after.Idle :=
    State.idle_of_sameParser (handled ▸ handle_sameParser _ _ _) ⟨rfl, rfl⟩
  obtain ⟨front, data, last, bytes, fed, accepts, completed⟩ :=
    run_frame_last blTestFunc (by decide) after idle writeSecond (by decide +kernel)
  have stream
      : writeFirst.bytes ++ writeSecond.bytes = (writeFirst.bytes ++ front) ++ [data] := by
    rw [bytes, List.append_assoc]
  have sets := all _ data [] stream last _ (run_append first (handled ▸ fed))
  have kept := (setsDeclared_iff blTestFunc last data).mp sets accepts
  have same := congrArg State.appProgram completed
  have length := congrArg (fun s : State => s.blVariate.length) completed
  simp only [State.completed, State.received] at same length
  rw [completed, same, length, handled] at kept
  exact absurd (kept (by decide +kernel) (by decide)) (by decide +kernel)

end At32.Bootloader
