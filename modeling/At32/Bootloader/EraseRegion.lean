import At32.Bootloader.Install
import Mathlib.Data.List.Nodup

/-! What flash_erase_region erases of a region, and what it reports of it. -/

namespace At32.Bootloader

open Flash NorFlash

-----------------------------------------------------------------------------------------
-- The sectors that are erased
-----------------------------------------------------------------------------------------

/-- The sector that an erase acts on: the one that contains its address. -/
def Call.erasedSector? (ops : BlTestFuncOps) : Call → Option Nat
  | .blFlashEraseRegion addr => some (addr.toNat / ops.flashSectorSize.toNat)
  | _ => none

/-- The sector has a byte of the region. -/
def AppProgramLocation.Meets (region : AppProgramLocation) (sectorSize sector : Nat) : Prop :=
  ∃ place,
    region.flashStartAddr.toNat ≤ place
    ∧ place < region.flashStartAddr.toNat + region.flashByteCount.toNat
    ∧ place / sectorSize = sector

/-- The calls erase the sectors that meet the region and no others, each once. -/
def ErasesExactly (ops : BlTestFuncOps) (region : AppProgramLocation) (calls : List Call)
    : Prop :=
  (calls.filterMap (Call.erasedSector? ops)).Nodup
  ∧ ∀ sector,
      sector ∈ calls.filterMap (Call.erasedSector? ops)
      ↔ region.Meets ops.flashSectorSize.toNat sector

/-- The region reaches into no more sectors than its length needs, and these can be counted
in sixteen bits.
-/
def AppProgramLocation.Compact (region : AppProgramLocation) (sectorSize : Nat) : Prop :=
  region.flashByteCount = 0
  ∨ (region.sectors sectorSize < 2 ^ 16
    ∧ region.flashStartAddr.toNat % sectorSize + (region.flashByteCount.toNat - 1) % sectorSize
      < sectorSize)

variable {ops : BlTestFuncOps}

/-- The sector loop over addresses that do not wrap erases consecutive sectors. -/
theorem eraseCalls_sectors (positive : 0 < ops.flashSectorSize.toNat) (start : UInt32)
    (num : UInt16)
    (inside : ∀ i < num.toNat, start.toNat + ops.flashSectorSize.toNat * i < 2 ^ 32)
    : (eraseCalls ops start num).filterMap (Call.erasedSector? ops)
      = (List.range num.toNat).map fun i => start.toNat / ops.flashSectorSize.toNat + i := by
  rw [eraseCalls, List.filterMap_map, ← List.filterMap_eq_map]
  apply List.filterMap_congr
  intro i member
  simp only [Function.comp, Call.erasedSector?]
  rw [Stride.addr_toNat_of_lt (inside i (List.mem_range.mp member)),
    Nat.add_mul_div_left _ _ positive]

/-- Besides its sector loop flash_erase_region calls no erase. -/
theorem flashEraseRegion_sectors (s : State)
    : (flashEraseRegion ops s).2.filterMap (Call.erasedSector? ops)
      = (eraseCalls ops (analysisAppDownloadAddr s).appProgram.flashStartAddr
          (sectorNum ops (analysisAppDownloadAddr s).appProgram.flashByteCount)).filterMap
          (Call.erasedSector? ops) := by
  rw [flashEraseRegion, List.filterMap_append, List.filterMap_append]
  exact List.append_nil _

/-- From cleared parameters the region is the declared one. -/
theorem analysisAppDownloadAddr_fresh {s : State} (fresh : s.appProgram = ⟨0, 0⟩)
    : (analysisAppDownloadAddr s).appProgram = s.fp.declared := by
  rw [analysisAppDownloadAddr_appProgram, fresh, UInt32.zero_or, UInt32.zero_or]

/-- The bytes of a region that is not empty span a sector, and more for every border. -/
theorem AppProgramLocation.sectors_pred (region : AppProgramLocation) {sectorSize : Nat}
    (positive : 0 < sectorSize) (some : 0 < region.flashByteCount.toNat)
    : region.sectors sectorSize = (region.flashByteCount.toNat - 1) / sectorSize + 1 := by
  have whole : region.flashByteCount.toNat + sectorSize - 1
      = region.flashByteCount.toNat - 1 + sectorSize := by omega
  rw [AppProgramLocation.sectors, whole, Nat.add_div_right _ positive]

/-- Consecutive sectors, as many as the bytes span, counted in a halfword. -/
theorem AppProgramLocation.covered_iff (region : AppProgramLocation) {sectorSize num : Nat}
    (positive : 0 < sectorSize) (some : 0 < region.flashByteCount.toNat)
    (counted : num = region.sectors sectorSize % 2 ^ 16)
    : (∀ sector,
        sector ∈ (List.range num).map (fun i => region.flashStartAddr.toNat / sectorSize + i)
        ↔ region.Meets sectorSize sector)
      ↔ region.sectors sectorSize < 2 ^ 16
        ∧ region.flashStartAddr.toNat % sectorSize
            + (region.flashByteCount.toNat - 1) % sectorSize
          < sectorSize := by
  have spans := region.sectors_pred positive some
  have last := @Stride.lastBlock _ region.flashStartAddr.toNat _ positive some
  refine (Stride.covers_iff positive some).trans ?_
  split at last <;> omega

/-- From cleared parameters flash_erase_region erases the sectors of its region exactly when
the region is compact.
-/
theorem flashEraseRegion_exact_iff {s : State} (fresh : s.appProgram = ⟨0, 0⟩)
    (positive : 0 < ops.flashSectorSize.toNat)
    (inside : s.fp.declared.flashStartAddr.toNat + s.fp.declared.flashByteCount.toNat ≤ 2 ^ 32)
    : ErasesExactly ops s.fp.declared (flashEraseRegion ops s).2
      ↔ s.fp.declared.Compact ops.flashSectorSize.toNat := by
  rw [ErasesExactly, flashEraseRegion_sectors, analysisAppDownloadAddr_fresh fresh]
  have counted := sectorNum_sectors ops s.fp.declared positive
  have few := Nat.mod_le (s.fp.declared.sectors ops.flashSectorSize.toNat) (2 ^ 16)
  rw [← counted] at few
  rw [eraseCalls_sectors positive _ _ fun i within => by
    have start := s.fp.declared.sector_lt_count positive (Nat.lt_of_lt_of_le within few)
    omega]
  have distinct
      : ((List.range (sectorNum ops s.fp.declared.flashByteCount).toNat).map fun i =>
          s.fp.declared.flashStartAddr.toNat / ops.flashSectorSize.toNat + i).Nodup :=
    List.Nodup.map (fun _ _ same => Nat.add_left_cancel same) List.nodup_range
  rw [and_iff_right distinct]
  by_cases empty : s.fp.declared.flashByteCount = 0
  · have none : (sectorNum ops s.fp.declared.flashByteCount).toNat = 0 := by
      rw [empty, sectorNum]
      simp
    refine iff_of_true (fun sector => ?_) (.inl empty)
    rw [none]
    refine iff_of_false List.not_mem_nil fun met => ?_
    obtain ⟨place, low, high, _⟩ := met
    rw [empty, UInt32.toNat_zero] at high
    omega
  · have some : 0 < s.fp.declared.flashByteCount.toNat := by
      rw [Nat.pos_iff_ne_zero, ← UInt32.toNat_zero, Ne, UInt32.toNat_inj]
      exact empty
    simp only [AppProgramLocation.Compact, empty, false_or]
    exact s.fp.declared.covered_iff positive some counted

/-- A fresh bootloader with this payload in its packet buffer. -/
def holding (payload : List UInt8) : State :=
  .powerOn
    { FramingPacket.zero with
      startByte := FramingPacketType.startByte
      packetType := FramingPacketType.command
      data := Buffer.store FramingPacket.zero.data 0 payload }

/-- Two sectors and a half from a sector border on. -/
theorem flashEraseRegion_exact_aligned
    : ErasesExactly blTestFunc
        (holding [2, 0, 0, 2, 0x00, 0x90, 0x00, 0x08, 0x00, 0x14, 0, 0]).fp.declared
        (flashEraseRegion blTestFunc
          (holding [2, 0, 0, 2, 0x00, 0x90, 0x00, 0x08, 0x00, 0x14, 0, 0])).2
      ↔ (holding [2, 0, 0, 2, 0x00, 0x90, 0x00, 0x08, 0x00, 0x14, 0, 0]).fp.declared.Compact
          blTestFunc.flashSectorSize.toNat :=
  flashEraseRegion_exact_iff rfl (by decide) (by decide +kernel)

/-- As many bytes as a sector has, from the middle of one on: the sector that holds the
other half is not erased.
-/
theorem flashEraseRegion_misses_halfSector
    : ¬ ErasesExactly blTestFunc
        (holding [2, 0, 0, 2, 0x00, 0x94, 0x00, 0x08, 0x00, 0x08, 0, 0]).fp.declared
        (flashEraseRegion blTestFunc
          (holding [2, 0, 0, 2, 0x00, 0x94, 0x00, 0x08, 0x00, 0x08, 0, 0])).2 := by
  intro exact
  have erased := (exact.2 0x10013).mpr
    ⟨0x08009800, by decide +kernel, by decide +kernel, by decide +kernel⟩
  revert erased
  decide +kernel

-----------------------------------------------------------------------------------------
-- The results of the erases
-----------------------------------------------------------------------------------------

/-- The addresses of the sector loop. -/
def sectorAddrs (ops : BlTestFuncOps) (start : UInt32) (num : UInt16) : List UInt32 :=
  (List.range num.toNat).map fun i => start + ops.flashSectorSize * UInt32.ofNat i

variable {σ : Type}

/-- The erase callback is called for one address after another: what the calls return, and
what they leave.
-/
def eraseEach (erase : UInt32 → σ → UInt8 × σ) : List UInt32 → σ → List UInt8 × σ
  | [], f => ([], f)
  | addr :: rest, f =>
      let (result, f) := erase addr f
      let (results, f) := eraseEach erase rest f
      (result :: results, f)

/-- flash_erase_region on a flash with an erase callback, whose results are dropped: what the
bootloader does, the results and the flash.
-/
def flashEraseRegionOn (ops : BlTestFuncOps) (erase : UInt32 → σ → UInt8 × σ) (s : State)
    (f : σ)
    : (State × List Call) × List UInt8 × σ :=
  let s := analysisAppDownloadAddr s
  let addrs :=
    sectorAddrs ops s.appProgram.flashStartAddr (sectorNum ops s.appProgram.flashByteCount)
  let (results, f) := eraseEach erase addrs f
  let (s, response) := genericResponsePacket s.nameCommand 0
  ((s, ackPacket ++ addrs.map .blFlashEraseRegion ++ response), results, f)

/-- The bootloader does the same on every flash. -/
theorem flashEraseRegionOn_calls (erase : UInt32 → σ → UInt8 × σ) (s : State) (f : σ)
    : (flashEraseRegionOn ops erase s f).1 = flashEraseRegion ops s := by
  simp only [flashEraseRegionOn, flashEraseRegion, sectorAddrs, eraseCalls, List.map_map]
  rfl

/-- The call is a generic response in the success form: status zero and the tag of the
command.
-/
def Call.ReportsSuccess (tag : UInt8) : Call → Prop
  | .blSendData _ buf => buf.drop 6 = [0xA0, 0, 0, 0x02, 0, 0, 0, 0, tag, 0, 0, 0]
  | _ => False

/-- Every erase that is made succeeds, each on the flash that the earlier ones leave. -/
def AllErased (erase : UInt32 → σ → UInt8 × σ) (addrs : List UInt32) (f : σ) : Prop :=
  ∀ i (within : i < addrs.length), (erase addrs[i] (eraseEach erase (addrs.take i) f).2).1 = 0

/-- By induction on the addresses. -/
theorem results_zero_iff (erase : UInt32 → σ → UInt8 × σ) (addrs : List UInt32) (f : σ)
    : (∀ result ∈ (eraseEach erase addrs f).1, result = 0) ↔ AllErased erase addrs f := by
  induction addrs generalizing f with
  | nil =>
      exact iff_of_true (fun _ member => (List.not_mem_nil member).elim)
        fun _ within => (Nat.not_lt_zero _ within).elim
  | cons addr rest ih =>
      rw [eraseEach, List.forall_mem_cons, ih, AllErased, AllErased]
      constructor
      · intro both i within
        obtain ⟨first, later⟩ := both
        cases i with
        | zero => exact first
        | succ i => exact later i (Nat.lt_of_succ_lt_succ within)
      · intro all
        exact ⟨all 0 (Nat.succ_pos _), fun i within => all (i + 1) (Nat.succ_lt_succ within)⟩

/-- The response to an erase command is in the success form, whatever the erases return. -/
theorem flashEraseRegion_reportsSuccess {s : State} (named : s.fp.tag = FLASH_ERASE_REGION)
    : ∃ call ∈ (flashEraseRegion ops s).2, call.ReportsSuccess FLASH_ERASE_REGION := by
  refine ⟨_, List.mem_append_right _ (List.mem_singleton_self _), ?_⟩
  have byte : ((analysisAppDownloadAddr s).nameCommand.genericPacket.commandTag &&& 0xFF).toUInt8
      = FLASH_ERASE_REGION := by
    change ((s.fp.tag.toUInt32 &&& 0xFF) &&& 0xFF).toUInt8 = _
    rw [named]
    rfl
  simp only [Call.ReportsSuccess, responseBuffer, if_true, byte]
  rfl

/-- A success is reported only if every erase succeeded exactly when every erase that the
loop makes succeeds.
-/
theorem flashEraseRegion_reported_iff (ops : BlTestFuncOps) (erase : UInt32 → σ → UInt8 × σ)
    {s : State} (named : s.fp.tag = FLASH_ERASE_REGION) (f : σ)
    : ((∃ call ∈ (flashEraseRegionOn ops erase s f).1.2,
          call.ReportsSuccess FLASH_ERASE_REGION)
        → ∀ result ∈ (flashEraseRegionOn ops erase s f).2.1, result = 0)
      ↔ AllErased erase
          (sectorAddrs ops (analysisAppDownloadAddr s).appProgram.flashStartAddr
            (sectorNum ops (analysisAppDownloadAddr s).appProgram.flashByteCount))
          f := by
  rw [flashEraseRegionOn_calls, imp_iff_right (flashEraseRegion_reportsSuccess named)]
  exact results_zero_iff erase _ f

/-- An erase command for the first sector of the application. -/
def firstSector : State := holding [2, 0, 0, 2, 0x00, 0x80, 0x00, 0x08, 2, 0, 0, 0]

/-- A flash that takes the erase. -/
theorem flashEraseRegion_reported_taken
    : ((∃ call
            ∈ (flashEraseRegionOn blTestFunc (fun _ (f : Unit) => (0, f)) firstSector ()).1.2,
          call.ReportsSuccess FLASH_ERASE_REGION)
        → ∀ result
            ∈ (flashEraseRegionOn blTestFunc (fun _ (f : Unit) => (0, f)) firstSector ()).2.1,
          result = 0)
      ↔ AllErased (fun _ (f : Unit) => (0, f))
          (sectorAddrs blTestFunc (analysisAppDownloadAddr firstSector).appProgram.flashStartAddr
            (sectorNum blTestFunc
              (analysisAppDownloadAddr firstSector).appProgram.flashByteCount))
          () :=
  flashEraseRegion_reported_iff blTestFunc _ (by decide +kernel) ()

/-- A flash whose controller says that it is protected. -/
def protectedFlash : Controller := ⟨2048, fun _ => FLASH_FLAG_WRPRTFLR⟩

/-- There the erase fails, and the response is that of a success. -/
theorem flashEraseRegion_reports_protected
    : ¬ ((∃ call
            ∈ (flashEraseRegionOn blTestFunc (flashErase protectedFlash) firstSector
                ⟨⟨fun _ => 0, []⟩, 0⟩).1.2,
          call.ReportsSuccess FLASH_ERASE_REGION)
        → ∀ result
            ∈ (flashEraseRegionOn blTestFunc (flashErase protectedFlash) firstSector
                ⟨⟨fun _ => 0, []⟩, 0⟩).2.1,
          result = 0) := by
  have addrs : sectorAddrs blTestFunc
      (analysisAppDownloadAddr firstSector).appProgram.flashStartAddr
      (sectorNum blTestFunc (analysisAppDownloadAddr firstSector).appProgram.flashByteCount)
      = [0x08008000] := by
    decide +kernel
  intro reported
  rw [flashEraseRegionOn_calls,
    imp_iff_right (flashEraseRegion_reportsSuccess (by decide +kernel))] at reported
  simp only [flashEraseRegionOn, addrs, eraseEach, List.forall_mem_singleton, flashErase,
    flashErasePage_protected protectedFlash (fun _ => rfl)] at reported
  cases reported

end At32.Bootloader
