import At32.Bootloader.Download
import At32.Lib.Stride

/-! What a download leaves in the flash: the image in its region and all else as it was. -/

namespace At32.Bootloader

open Flash LittleEndian NorFlash Transducer

variable {board : Board} {c : Controller}

/-- Calls that do not touch the flash may be left out. -/
theorem flashAfter_filter (c : Controller) (calls : List Call) (f : Flash.State)
    : flashAfter c (calls.filter Call.touchesFlash) f = flashAfter c calls f := by
  induction calls generalizing f with
  | nil => rfl
  | cons call rest ih =>
      rw [List.filter_cons]
      split
      · exact ih (call.onFlash c f)
      · rename_i untouched
        have same : call.onFlash c f = f := by
          cases call <;> first | rfl | exact (untouched rfl).elim
        rw [ih, flashAfter, flashAfter, List.foldl_cons, same]

theorem flashAfter_append (c : Controller) (first second : List Call) (f : Flash.State)
    : flashAfter c (first ++ second) f = flashAfter c second (flashAfter c first f) :=
  List.foldl_append

/-- The two outcomes of flash_erase differ in its result only. -/
theorem flashErase_state (c : Controller) (addr : UInt32) (f : Flash.State)
    : (flashErase c addr f).2 = (flashErasePage c addr f).2 := by
  simp only [flashErase]
  split <;> rfl

/-- The sectors of a region are the whole ones and one for a remainder. -/
theorem AppProgramLocation.sectors_eq (region : AppProgramLocation) {sectorSize : Nat}
    (positive : 0 < sectorSize)
    : region.sectors sectorSize
      = region.flashByteCount.toNat / sectorSize
        + (if region.flashByteCount.toNat % sectorSize = 0 then 0 else 1) := by
  have small := Nat.mod_lt region.flashByteCount.toNat positive
  have split := Nat.mod_add_div region.flashByteCount.toNat sectorSize
  rw [AppProgramLocation.sectors,
    show region.flashByteCount.toNat + sectorSize - 1
      = region.flashByteCount.toNat % sectorSize + sectorSize - 1
        + sectorSize * (region.flashByteCount.toNat / sectorSize) by omega,
    Nat.add_mul_div_left _ _ positive, Nat.add_comm]
  congr 1
  by_cases whole : region.flashByteCount.toNat % sectorSize = 0
  · rw [if_pos whole, whole, Nat.div_eq_of_lt (by omega)]
  · rw [if_neg whole]
    exact Nat.div_eq_of_lt_le (by omega) (by omega)

/-- The sectors of a region start inside it. -/
theorem AppProgramLocation.sector_lt_count (region : AppProgramLocation) {sectorSize : Nat}
    (positive : 0 < sectorSize) {index : Nat} (within : index < region.sectors sectorSize)
    : sectorSize * index < region.flashByteCount.toNat := by
  have below := (Nat.le_div_iff_mul_le positive).mp within
  rw [Nat.succ_mul, Nat.mul_comm] at below
  omega

/-- The sector count of an erase command is that of its region, in sixteen bits. -/
theorem sectorNum_sectors (ops : BlTestFuncOps) (region : AppProgramLocation)
    (positive : 0 < ops.flashSectorSize.toNat)
    : (sectorNum ops region.flashByteCount).toNat
      = region.sectors ops.flashSectorSize.toNat % 2 ^ 16 := by
  have quotient : (region.flashByteCount / ops.flashSectorSize).toNat
      = region.flashByteCount.toNat / ops.flashSectorSize.toNat := UInt32.toNat_div _ _
  have remainder : (region.flashByteCount % ops.flashSectorSize).toNat
      = region.flashByteCount.toNat % ops.flashSectorSize.toNat := UInt32.toNat_mod _ _
  rw [region.sectors_eq positive]
  simp only [sectorNum, Ne, ← UInt32.toNat_inj, remainder, UInt32.toNat_zero]
  by_cases whole : region.flashByteCount.toNat % ops.flashSectorSize.toNat = 0
  · rw [if_neg (not_not_intro whole), if_pos whole, UInt32.toNat_toUInt16, quotient,
      Nat.add_zero]
  · rw [if_pos whole, if_neg whole, UInt16.toNat_add, UInt32.toNat_toUInt16, quotient,
      UInt16.toNat_one, Nat.mod_add_mod]

/-- The sector loop erases consecutive pages from the one that holds its first address, by
induction on their number.
-/
theorem eraseCalls_erasePages {ops : BlTestFuncOps} (ready : c.Ready)
    (positive : 0 < ops.flashSectorSize.toNat) (page : c.page = ops.flashSectorSize.toNat)
    (start : UInt32) (num : UInt16)
    (inside : ∀ i < num.toNat, start.toNat + ops.flashSectorSize.toNat * i < 2 ^ 32)
    (f : Flash.State)
    : (flashAfter c (eraseCalls ops start num) f).memory
      = f.memory.erasePages blank (ops.flashSectorSize.toNat / 2)
          (start.toNat / ops.flashSectorSize.toNat) num.toNat := by
  rw [eraseCalls]
  generalize num.toNat = count at inside ⊢
  induction count with
  | zero => rfl
  | succ count ih =>
      rw [List.range_succ, List.map_append, flashAfter_append, Memory.erasePages_succ,
        ← ih fun i before => inside i (Nat.lt_succ_of_lt before)]
      simp only [List.map_singleton, flashAfter, List.foldl_cons, List.foldl_nil, Call.onFlash]
      rw [flashErase_state, flashErasePage_memory ready, page,
        Stride.addr_toNat_of_lt (inside count (Nat.lt_succ_self count)),
        Nat.add_mul_div_left _ _ positive]

/-- A sector holds halfwords. -/
theorem halfSector_pos (board : Board) : 0 < board.sector / 2 := by
  have whole : 0 < board.sector := board.sectorPositive
  have even : board.sector % 2 = 0 := board.sectorEven
  omega

namespace Download

variable (d : Download board)

/-- The number of sectors of the region fits a halfword. -/
theorem sectors_lt : d.region.sectors board.sector < 2 ^ 16 := by
  have above := UInt32.le_iff_toNat_le.mp d.aboveApp
  have base := UInt32.le_iff_toNat_le.mp board.appInFlash
  have inFlash := d.inFlash
  refine Nat.lt_of_le_of_lt ?_ board.sectorCount
  rw [Nat.le_div_iff_mul_le board.sectorPositive]
  change d.region.sectors board.sector * board.sector ≤ _
  omega

/-- The sector count of an erase command is that of the region. -/
theorem sectorNum_toNat
    : (sectorNum board.ops d.region.flashByteCount).toNat = d.region.sectors board.sector := by
  rw [sectorNum_sectors board.ops d.region board.sectorPositive]
  exact Nat.mod_eq_of_lt d.sectors_lt

-----------------------------------------------------------------------------------------
-- What one packet of a download does to the flash
-----------------------------------------------------------------------------------------

/-- What a packet of the download means for the flash: an erase command erases the sectors
of the region, and a chunk is programmed at its place.
-/
def effect : Role → Memory UInt16 → Memory UInt16
  | .interlude, memory | .write, memory => memory
  | .erase, memory =>
      memory.erasePages blank (board.sector / 2)
        (d.region.flashStartAddr.toNat / board.sector) (d.region.sectors board.sector)
  | .chunk offset payload _, memory =>
      memory.programAll blank ((d.region.flashStartAddr.toNat + offset) / 2) (halves payload)

/-- A chunk that ends inside the region. -/
def Fits : Role → Prop
  | .chunk offset payload _ => offset + payload.length ≤ d.region.flashByteCount.toNat
  | _ => True

variable (ready : c.Ready) (page : c.page = board.sector)
include ready page

omit ready page in
/-- The sectors of the region start inside the address space. -/
theorem sector_inside {index : Nat} (within : index < d.region.sectors board.sector)
    : d.region.flashStartAddr.toNat + board.sector * index < 2 ^ 32 := by
  have top := d.top
  have start := d.region.sector_lt_count board.sectorPositive within
  have fits := d.region.count_le_sectors board.sector board.sectorPositive
  change board.sector * index < _ at start
  omega

/-- The calls that answer a packet have its effect, by cases on its role. -/
theorem answered_effect {role : Role} {calls : List Call}
    (answered : role.AnsweredBy board.ops d.region calls) (fits : d.Fits role)
    (f : Flash.State)
    : (flashAfter c calls f).memory = d.effect role f.memory := by
  rw [← flashAfter_filter]
  cases role with
  | interlude =>
      rw [answered.1]
      rfl
  | erase =>
      have erased := eraseCalls_erasePages ready board.sectorPositive page
        d.region.flashStartAddr (sectorNum board.ops d.region.flashByteCount)
        (fun i within => d.sector_inside (by rwa [d.sectorNum_toNat] at within)) f
      rw [answered.1, erased, d.sectorNum_toNat]
      rfl
  | write =>
      rw [answered.1]
      rfl
  | chunk offset payload final =>
      obtain ⟨⟨addr, stale, len, calls, place, length⟩, _⟩ := answered
      have top := d.top
      have region := d.region.count_le_sectors board.sector board.sectorPositive
      have data : (halves payload ++ stale).take len.toNat = halves payload :=
        List.take_left' (by rw [halves_length]; omega)
      have inside : offset + payload.length ≤ d.region.flashByteCount.toNat := fits
      rw [calls]
      simp only [flashAfter, List.foldl_cons, List.foldl_nil, Call.onFlash, flashWritePageWord,
        data]
      rw [flashWriteHalfWords_memory ready _ _ _ (by rw [place, halves_length]; omega), place]
      rfl

omit ready page in
theorem fits_interludes (interludes : List (Interlude board.ops.packetSize))
    : ∀ part ∈ interludeParts interludes, d.Fits part.1 := by
  intro part member
  obtain ⟨interlude, _, rfl⟩ := List.mem_map.mp member
  trivial

omit ready page in
theorem fits_turn {accepted : Frame board.ops.packetSize → Prop} (role : Role)
    (turn : Turn board.ops.packetSize accepted) (fits : d.Fits role)
    : ∀ part ∈ turn.parts role, d.Fits part.1 := by
  intro part member
  rcases List.mem_append.mp member with interlude | frame
  · exact d.fits_interludes _ part interlude
  · obtain rfl := List.mem_singleton.mp frame
    exact fits

omit ready page in
/-- Chunks that fill the region from a place in it on lie inside it. -/
theorem fits_transfers (offset : Nat)
    (transfers : List (Turn board.ops.packetSize Frame.IsChunk))
    (whole
      : offset + (transfers.flatMap fun turn => turn.frame.payload).length
        ≤ d.region.flashByteCount.toNat)
    : ∀ part ∈ transferParts offset transfers, d.Fits part.1 := by
  induction transfers generalizing offset with
  | nil => exact fun part member => (List.not_mem_nil member).elim
  | cons turn rest ih =>
      rw [List.flatMap_cons, List.length_append] at whole
      intro part member
      rcases List.mem_append.mp member with here | later
      · refine d.fits_turn _ turn ?_ part here
        change offset + turn.frame.payload.length ≤ _
        omega
      · exact ih _ (by omega) part later

omit ready page in
/-- Every packet of the download fits the region. -/
theorem fits_parts : ∀ part ∈ d.parts, d.Fits part.1 := by
  intro part member
  simp only [Download.parts, List.mem_append, List.mem_flatMap] at member
  rcases member with ((⟨turn, _, erase⟩ | write) | transfer) | closing
  · exact d.fits_turn .erase turn trivial part erase
  · exact d.fits_turn .write d.write trivial part write
  · exact d.fits_transfers 0 d.transfers
      (by rw [d.chunks, d.length, Nat.zero_add]) part transfer
  · exact d.fits_interludes d.closing part closing

-----------------------------------------------------------------------------------------
-- The flash behind a sequence of packets
-----------------------------------------------------------------------------------------

/-- What packets mean for the flash, in order. -/
def effects (parts : List (Part board.ops.packetSize)) (memory : Memory UInt16)
    : Memory UInt16 :=
  parts.foldl (fun memory part => d.effect part.1 memory) memory

/-- The calls of a run of packets have the packets' effects, by induction on the packets. -/
theorem answers_effects {parts : List (Part board.ops.packetSize)} {answers : List (List Call)}
    (answered : List.Forall₂ (PartAnswered board.ops d.region) parts answers)
    (fits : ∀ part ∈ parts, d.Fits part.1) (f : Flash.State)
    : (flashAfter c answers.flatten f).memory = d.effects parts f.memory := by
  induction answered generalizing f with
  | nil => rfl
  | @cons part calls parts answers first _ ih =>
      obtain ⟨fit, fits⟩ := List.forall_mem_cons.mp fits
      rw [List.flatten_cons, flashAfter_append, ih fits, d.answered_effect ready page first fit]
      rfl

omit ready page

@[simp] theorem effects_append (left right : List (Part board.ops.packetSize))
    (memory : Memory UInt16)
    : d.effects (left ++ right) memory = d.effects right (d.effects left memory) :=
  List.foldl_append

@[simp] theorem effects_interludes (interludes : List (Interlude board.ops.packetSize))
    (memory : Memory UInt16)
    : d.effects (interludeParts interludes) memory = memory := by
  induction interludes with
  | nil => rfl
  | cons interlude rest ih => exact ih

@[simp] theorem effects_turn {accepted : Frame board.ops.packetSize → Prop} (role : Role)
    (turn : Turn board.ops.packetSize accepted) (memory : Memory UInt16)
    : d.effects (turn.parts role) memory = d.effect role memory := by
  rw [Turn.parts, effects_append, effects_interludes]
  rfl

/-- The sectors of the region in halfwords. -/
theorem sectors_halved
    : d.region.sectors board.sector * board.sector
      = 2 * (d.region.sectors board.sector * (board.sector / 2)) := by
  have even : board.sector % 2 = 0 := board.sectorEven
  rw [Nat.mul_left_comm]
  congr 1
  omega

/-- The first halfword of the region, which starts its first sector. -/
theorem start_half
    : d.region.flashStartAddr.toNat / board.sector * (board.sector / 2)
        = d.region.flashStartAddr.toNat / 2
      ∧ d.region.flashStartAddr.toNat % 2 = 0 := by
  have even : board.sector % 2 = 0 := board.sectorEven
  have aligned := Nat.div_add_mod d.region.flashStartAddr.toNat board.sector
  rw [d.aligned, Nat.add_zero] at aligned
  have halved : board.sector = 2 * (board.sector / 2) := by omega
  have doubled : d.region.flashStartAddr.toNat
      = 2 * (d.region.flashStartAddr.toNat / board.sector * (board.sector / 2)) := by
    rw [Nat.mul_left_comm, ← halved, Nat.mul_comm, aligned]
  omega

/-- Erase commands leave the region blank, if there are any, and change nothing else; by
induction on the commands.
-/
theorem effects_erases
    (erases : List (Turn board.ops.packetSize (Frame.Names FLASH_ERASE_REGION d.region)))
    (memory : Memory UInt16)
    : Memory.ChangesWithin blank memory
        (d.effects (erases.flatMap (Turn.parts .erase)) memory)
        (d.region.flashStartAddr.toNat / 2)
        (d.region.sectors board.sector * (board.sector / 2))
      ∧ (erases ≠ []
        → (d.effects (erases.flatMap (Turn.parts .erase)) memory).Blank blank
            (d.region.flashStartAddr.toNat / 2)
            (d.region.sectors board.sector * (board.sector / 2))) := by
  have positive := halfSector_pos board
  induction erases generalizing memory with
  | nil => exact ⟨.refl blank memory _ _, fun nonempty => (nonempty rfl).elim⟩
  | cons turn rest ih =>
      have changed := Memory.erasePages_changesWithin blank (board.sector / 2) memory
        (d.region.flashStartAddr.toNat / board.sector) (d.region.sectors board.sector) positive
      have blanked := Memory.erasePages_blank blank (board.sector / 2) memory
        (d.region.flashStartAddr.toNat / board.sector) (d.region.sectors board.sector) positive
      rw [d.start_half.1] at changed blanked
      rw [List.flatMap_cons, effects_append, effects_turn]
      obtain ⟨later, laterBlank⟩ := ih (d.effect .erase memory)
      refine ⟨changed.trans later, fun _ => ?_⟩
      cases rest with
      | nil => exact blanked
      | cons _ _ => exact laterBlank (List.cons_ne_nil _ _)

/-- Chunks program their bytes in succession, by induction on the chunks. -/
theorem effects_transfers (offset : Nat)
    (transfers : List (Turn board.ops.packetSize Frame.IsChunk))
    (even : offset % 2 = 0) (memory : Memory UInt16)
    : d.effects (transferParts offset transfers) memory
      = memory.programAll blank ((d.region.flashStartAddr.toNat + offset) / 2)
          (halves (transfers.flatMap fun turn => turn.frame.payload)) := by
  induction transfers generalizing offset memory with
  | nil => rfl
  | cons turn rest ih =>
      have evenChunk := turn.accepts.even
      have evenStart := d.start_half.2
      rw [transferParts, effects_append, effects_turn, ih _ (by omega), List.flatMap_cons,
        halves_append _ _ evenChunk, Memory.programAll_append, halves_length]
      simp only [effect]
      congr 1
      omega

/-- The image is in the flash, halfword by halfword; everything outside the sectors of its
region is as it was, and only erased halfwords were programmed.
-/
structure Installed (before after : Memory UInt16) : Prop where
  image
    : ∀ index (inside : index < (halves d.image).length),
        after.cells (d.region.flashStartAddr.toNat / 2 + index) = (halves d.image)[index]
  outside
    : ∀ cell,
        2 * cell < d.region.flashStartAddr.toNat
        ∨ d.region.flashStartAddr.toNat + d.region.sectors board.sector * board.sector
          ≤ 2 * cell
        → after.cells cell = before.cells cell
  clean : Memory.CleanlyBecomes blank before after

/-- The packets of a download erase the sectors of its region and program its image there. -/
theorem effects_parts (memory : Memory UInt16)
    : d.effects d.parts memory
      = (d.effects (d.erases.flatMap (Turn.parts .erase)) memory).programAll blank
          (d.region.flashStartAddr.toNat / 2) (halves d.image) := by
  have programmed := d.effects_transfers 0 d.transfers rfl
    (d.effects (d.erases.flatMap (Turn.parts .erase)) memory)
  rw [Download.parts, effects_append, effects_append, effects_append, effects_interludes,
    effects_turn, ← d.chunks]
  exact programmed

/-- The packets of a download install its image. -/
theorem effects_installed (memory : Memory UInt16)
    : d.Installed memory (d.effects d.parts memory) := by
  obtain ⟨erased, blanked⟩ := d.effects_erases d.erases memory
  have blanked := blanked d.erased
  have fits := d.region.count_le_sectors board.sector board.sectorPositive
  have length := d.length
  have evenStart := d.start_half.2
  have halved := d.sectors_halved
  have updates := Memory.programAll_updates blank
    (d.effects (d.erases.flatMap (Turn.parts .erase)) memory)
    (d.region.flashStartAddr.toNat / 2) (halves d.image)
    (fun index inside => blanked index (by rw [halves_length] at inside; omega))
  have whole := erased.trans
    (updates.changesWithin (Nat.le_refl _) (by rw [halves_length]; omega))
  rw [← d.effects_parts memory] at updates whole
  exact ⟨updates.written, fun cell outside => whole.kept cell (by omega), whole.clean⟩

/-- The halfwords behind the image are erased up to the end of the region's last sector. -/
def BlankBehind (after : Memory UInt16) : Prop :=
  ∀ cell,
    d.region.flashStartAddr.toNat + d.region.flashByteCount.toNat ≤ 2 * cell
    → 2 * cell < d.region.flashStartAddr.toNat + d.region.sectors board.sector * board.sector
    → after.cells cell = blank

/-- The packets of a download leave the rest of its sectors blank, whatever was there. -/
theorem effects_blankBehind (memory : Memory UInt16)
    : d.BlankBehind (d.effects d.parts memory) := by
  intro cell above below
  have blanked := (d.effects_erases d.erases memory).2 d.erased
  have length := d.length
  have evenStart := d.start_half.2
  rw [d.sectors_halved] at below
  rw [d.effects_parts, Memory.programAll_outside blank _ _ _ (by rw [halves_length]; omega)]
  have erased := blanked (cell - d.region.flashStartAddr.toNat / 2) (by omega)
  rwa [Nat.add_sub_cancel' (by omega)] at erased

end Download

/-- A download installs its image. From power-on and any flash, every packet of the session
is answered as its role asks: each chunk is written once at its place and acked once, and
the last one is answered with the final response, which no other packet after the write
command is. The flash then holds the image, and the write pointer is cleared.
-/
theorem download_installs (d : Download board) (c : Controller) (ready : c.Ready)
    (page : c.page = board.sector) (fp : FramingPacket) (f : Flash.State)
    : ∃ s answers,
        trace (run (analysisPacket board.ops)) (.powerOn fp)
            (d.parts.map fun part => part.2.bytes)
          = .ok (s, answers)
        ∧ List.Forall₂ (PartAnswered board.ops d.region) d.parts answers
        ∧ d.Installed f.memory (flashAfter c answers.flatten f).memory
        ∧ s.blVariate.writeMemoryStart = 0 := by
  obtain ⟨s, answers, fed, ⟨_, session⟩, answered⟩ := download_taken d fp
  refine ⟨s, answers, fed, answered, ?_, (Prod.mk.inj session).2⟩
  rw [d.answers_effects ready page answered d.fits_parts f]
  exact d.effects_installed f.memory

/-- One halfword for the start of the application of main.c, in one chunk. -/
def smallestDownload : Download at32Board :=
  {
    region := { flashStartAddr := APP_ADDRESS, flashByteCount := 2 }
    image := [0x34, 0x12]
    aligned := by decide
    aboveApp := by decide
    inFlash := by decide
    positive := by decide
    even := by decide
    length := by decide
    erases :=
      [
        {
          interludes := [.ping]
          frame :=
            {
              kind := .command
              payload := [FLASH_ERASE_REGION, 0, 0, 2, 0x00, 0x80, 0x00, 0x08, 2, 0, 0, 0]
              crcLow := 0x85
              crcHigh := 0x3E
              nonempty := by decide
              fits := by decide
            }
          accepts := ⟨⟨rfl, by decide +kernel, rfl⟩, by decide +kernel⟩
        }
      ]
    erased := List.cons_ne_nil _ _
    write :=
      {
        interludes := []
        frame :=
          {
            kind := .command
            payload := [WRITE_MEMORY, 0, 0, 2, 0x00, 0x80, 0x00, 0x08, 2, 0, 0, 0]
            crcLow := 0xBB
            crcHigh := 0x35
            nonempty := by decide
            fits := by decide
          }
        accepts := ⟨⟨rfl, by decide +kernel, rfl⟩, by decide +kernel⟩
      }
    transfers :=
      [
        {
          interludes := [.ack]
          frame :=
            {
              kind := .data
              payload := [0x34, 0x12]
              crcLow := 0xEF
              crcHigh := 0xE9
              nonempty := by decide
              fits := by decide
            }
          accepts := ⟨rfl, by decide +kernel, rfl⟩
        }
      ]
    chunks := rfl
    closing := []
  }

/-- The board of main.c with an idle controller takes that download. -/
theorem download_installs_smallest
    : ∃ s answers,
        trace (run (analysisPacket blTestFunc)) (.powerOn .zero)
            (smallestDownload.parts.map fun part => part.2.bytes)
          = .ok (s, answers)
        ∧ List.Forall₂ (PartAnswered blTestFunc smallestDownload.region)
            smallestDownload.parts answers
        ∧ smallestDownload.Installed ⟨fun _ => 0, []⟩
            (flashAfter ⟨2048, fun _ => 0⟩ answers.flatten ⟨⟨fun _ => 0, []⟩, 0⟩).memory
        ∧ s.blVariate.writeMemoryStart = 0 :=
  download_installs smallestDownload ⟨2048, fun _ => 0⟩
    (Controller.ready_of_idle _ fun _ => rfl) rfl .zero ⟨⟨fun _ => 0, []⟩, 0⟩

end At32.Bootloader
