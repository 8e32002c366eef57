import At32.Drivers.Flash

/-! flash_write, which programs a range of halfwords page by page and rewrites a page that
is not blank where the range lies.
-/

namespace At32.Flash

open NorFlash

variable (c : Controller)

/-- One pass of the loop over the page that starts at (sector): FLASH_BUF is read, and
either merged and written back whole after an erase, or left for programming in place.
-/
def flashWritePage (sector addr : UInt32) (secoff secremain : UInt16) (buf : List UInt16)
    (f : State)
    : State :=
  let flashBuf := flashRead sector (SECTOR_SIZE / 2).toUInt16 f
  if ((flashBuf.drop secoff.toNat).take secremain.toNat).any (· ≠ 0XFFFF) then
    let f := (flashErasePage c sector f).2
    let flashBuf := Buffer.splice flashBuf secoff.toNat (buf.take secremain.toNat)
    flashWritePageWord c sector flashBuf (SECTOR_SIZE / 2).toUInt16 f
  else
    flashWritePageWord c addr buf secremain f

/-- The loop of flash_write; (none) is a loop that did not end within the passes given. -/
def flashWriteLoop
    : Nat → UInt32 → UInt16 → UInt16 → UInt32 → List UInt16 → UInt16 → State → Option State
  | 0, _, _, _, _, _, _, _ => none
  | passes + 1, secpos, secoff, secremain, addr, buf, len, f =>
      let sector := secpos * SECTOR_SIZE + FLASH_BASE
      let f := flashWritePage c sector addr secoff secremain buf f
      if len = secremain then
        some f
      else
        let len' := len - secremain
        let secremain' :=
          if SECTOR_SIZE / 2 < len'.toUInt32 then (SECTOR_SIZE / 2).toUInt16 else len'
        flashWriteLoop passes (secpos + 1) 0 secremain' (addr + secremain.toUInt32 * 2)
          (buf.drop secremain.toNat) len' f

def flashWrite (passes : Nat) (addr : UInt32) (buf : List UInt16) (len : UInt16) (f : State)
    : Option State :=
  if addr < FLASH_BASE ∨ FLASH_BASE + BANK1 * SECTOR_SIZE ≤ addr then
    some f
  else
    let offaddr := addr - FLASH_BASE
    let secpos := offaddr / SECTOR_SIZE
    let secoff := ((offaddr % SECTOR_SIZE) / 2).toUInt16
    let secremain := (SECTOR_SIZE / 2 - secoff.toUInt32).toUInt16
    let secremain := if len ≤ secremain then len else secremain
    flashWriteLoop c passes secpos secoff secremain addr buf len f

variable {c}

/-- One pass updates exactly its part of the page, whichever way it takes. -/
theorem flashWritePage_updates (ready : c.Ready) (page : c.page = 2048)
    (sector addr : UInt32) (secoff secremain : UInt16) (buf : List UInt16) (f : State)
    (start : addr.toNat = sector.toNat + 2 * secoff.toNat)
    (aligned : sector.toNat % 2048 = 0)
    (fits : secoff.toNat + secremain.toNat ≤ 1024)
    (bound : sector.toNat + 2048 ≤ 2 ^ 32)
    (buffer : secremain.toNat ≤ buf.length)
    : f.memory.Updates blank (flashWritePage c sector addr secoff secremain buf f).memory
        (addr.toNat / 2) (buf.take secremain.toNat) := by
  have length : (buf.take secremain.toNat).length = secremain.toNat :=
    List.length_take_of_le buffer
  have cell : addr.toNat / 2 = sector.toNat / 2048 * 1024 + secoff.toNat := by omega
  have pageStart : sector.toNat / 2 = sector.toNat / 2048 * 1024 := by omega
  have read : flashRead sector (SECTOR_SIZE / 2).toUInt16 f
      = f.memory.pageList 1024 (sector.toNat / 2048) := by
    rw [flashRead, flashReadHalfWords_eq _ _ _ (by
      rw [show ((SECTOR_SIZE / 2).toUInt16).toNat = 1024 by rfl]
      omega), pageStart]
    rfl
  have fitsPage : secoff.toNat + (buf.take secremain.toNat).length
      ≤ (f.memory.pageList 1024 (sector.toNat / 2048)).length := by
    rw [length, Memory.pageList_length]
    exact fits
  simp only [flashWritePage, read]
  split
  · have merged := Buffer.splice_length _ _ _ fitsPage
    rw [Memory.pageList_length] at merged
    simp only [flashWritePageWord]
    rw [show ((SECTOR_SIZE / 2).toUInt16).toNat = 1024 by rfl,
      List.take_of_length_le (Nat.le_of_eq merged),
      flashWriteHalfWords_memory ready _ _ _ (by omega), flashErasePage_memory ready, page,
      pageStart, cell]
    exact Memory.rewritePage_updates blank 1024 f.memory _ _ _ (by omega) (by omega)
  · rename_i untouched
    have erased
        : f.memory.Blank blank (addr.toNat / 2) (buf.take secremain.toNat).length := by
      intro index inside
      rw [length] at inside
      have bounded : secoff.toNat + index < 1024 := by omega
      have value
          : ((f.memory.pageList 1024 (sector.toNat / 2048)).drop secoff.toNat)[index]?
            = some (f.memory.cells (addr.toNat / 2 + index)) := by
        rw [List.getElem?_drop, Memory.pageList, List.getElem?_map,
          List.getElem?_range bounded, Option.map_some, cell, Nat.add_assoc]
      by_contra held
      apply untouched
      rw [List.any_eq_true]
      refine ⟨_, List.mem_iff_getElem?.mpr ⟨index, ?_⟩, decide_eq_true held⟩
      rw [List.getElem?_take_of_lt inside, value]
    rw [flashWritePageWord, flashWriteHalfWords_memory ready _ _ _ (by omega)]
    exact Memory.programAll_updates blank f.memory _ _ erased

/-- The part of a later page is the rest of the range or a whole page. -/
theorem nextPart (len : UInt16)
    : (if SECTOR_SIZE / 2 < len.toUInt32 then (SECTOR_SIZE / 2).toUInt16 else len).toNat
      = min len.toNat (1024 - (0 : UInt16).toNat) := by
  rw [UInt16.toNat_zero]
  split
  · rename_i whole
    rw [UInt32.lt_iff_toNat_lt, UInt16.toNat_toUInt32] at whole
    rw [show (SECTOR_SIZE / 2).toNat = 1024 by rfl] at whole
    rw [show ((SECTOR_SIZE / 2).toUInt16).toNat = 1024 by rfl]
    omega
  · rename_i part
    rw [UInt32.lt_iff_toNat_lt, UInt16.toNat_toUInt32] at part
    rw [show (SECTOR_SIZE / 2).toNat = 1024 by rfl] at part
    omega

/-- The first byte of a page of the bank, or of the one behind it. -/
theorem sector_toNat {secpos : UInt32} (bank : secpos.toNat ≤ 255)
    : (secpos * SECTOR_SIZE + FLASH_BASE).toNat = FLASH_BASE.toNat + 2048 * secpos.toNat := by
  have base : FLASH_BASE.toNat = 0x08000000 := rfl
  have size : SECTOR_SIZE.toNat = 2048 := rfl
  rw [UInt32.toNat_add, UInt32.toNat_mul, size, base]
  omega

theorem secpos_next {secpos : UInt32} (bank : secpos.toNat ≤ 255)
    : (secpos + 1).toNat = secpos.toNat + 1 := by
  rw [UInt32.toNat_add, UInt32.toNat_one]
  omega

/-- The address behind a part that ends inside the address space. -/
theorem addr_behind {addr : UInt32} {secremain : UInt16}
    (fits : addr.toNat + 2 * secremain.toNat < 2 ^ 32)
    : (addr + secremain.toUInt32 * 2).toNat = addr.toNat + 2 * secremain.toNat := by
  have two : UInt32.toNat 2 = 2 := rfl
  rw [UInt32.toNat_add, UInt32.toNat_mul, UInt16.toNat_toUInt32, two]
  omega

/-- What a part that is not the whole range leaves of it. -/
theorem rest_toNat {len secremain : UInt16} (part : secremain.toNat ≤ len.toNat)
    (more : len ≠ secremain)
    : secremain.toNat < len.toNat
      ∧ (len - secremain).toNat = len.toNat - secremain.toNat := by
  have different := mt UInt16.toNat_inj.mp more
  have shorter : secremain.toNat < len.toNat := by omega
  exact ⟨shorter,
    UInt16.toNat_sub_of_le _ _ (UInt16.le_iff_toNat_le.mpr (Nat.le_of_lt shorter))⟩

/-- The first part is what the range has of the page it starts in. -/
theorem firstPart (len secoff : UInt16) (inside : secoff.toNat < 1024)
    : (if len ≤ (SECTOR_SIZE / 2 - secoff.toUInt32).toUInt16 then len
        else (SECTOR_SIZE / 2 - secoff.toUInt32).toUInt16).toNat
      = min len.toNat (1024 - secoff.toNat) := by
  have room : (SECTOR_SIZE / 2 - secoff.toUInt32).toUInt16.toNat = 1024 - secoff.toNat := by
    rw [UInt32.toNat_toUInt16, UInt32.toNat_sub_of_le, UInt16.toNat_toUInt32]
    · rw [show (SECTOR_SIZE / 2).toNat = 1024 by rfl]
      omega
    · rw [UInt32.le_iff_toNat_le, UInt16.toNat_toUInt32]
      exact Nat.le_of_lt inside
  split <;> rename_i test <;> rw [UInt16.le_iff_toNat_le, room] at test <;> omega

/-- The loop updates exactly the rest of the range, by induction on the passes: a pass that
does not end the loop uses up the rest of its page, so the next one starts a page.
-/
theorem flashWriteLoop_updates (ready : c.Ready) (page : c.page = 2048) (passes : Nat)
    (secpos : UInt32) (secoff secremain : UInt16) (addr : UInt32) (buf : List UInt16)
    (len : UInt16) (f : State)
    (start : addr.toNat = FLASH_BASE.toNat + 2048 * secpos.toNat + 2 * secoff.toNat)
    (inside : secoff.toNat < 1024)
    (part : secremain.toNat = min len.toNat (1024 - secoff.toNat))
    (bound : addr.toNat + 2 * len.toNat ≤ FLASH_BASE.toNat + 255 * 2048)
    (buffer : buf.length = len.toNat)
    (enough : len.toNat < passes)
    : ∃ g,
        flashWriteLoop c passes secpos secoff secremain addr buf len f = some g
        ∧ f.memory.Updates blank g.memory (addr.toNat / 2) buf := by
  induction passes generalizing secpos secoff secremain addr buf len f with
  | zero => omega
  | succ passes ih =>
      have base : FLASH_BASE.toNat = 0x08000000 := rfl
      have bank : secpos.toNat ≤ 255 := by omega
      have sector := sector_toNat bank
      have page := flashWritePage_updates ready page (secpos * SECTOR_SIZE + FLASH_BASE) addr
        secoff secremain buf f (by omega) (by omega) (by omega) (by omega) (by omega)
      rw [flashWriteLoop]
      simp only
      split
      · rename_i last
        refine ⟨_, rfl, ?_⟩
        subst last
        rwa [← buffer, List.take_length] at page
      · rename_i more
        obtain ⟨shorter, len'⟩ := rest_toNat (by omega) more
        have addr' : (addr + secremain.toUInt32 * 2).toNat
            = addr.toNat + 2 * secremain.toNat :=
          addr_behind (by omega)
        have secpos' := secpos_next bank
        obtain ⟨g, ended, rest⟩ := ih (secpos + 1) 0
          (if SECTOR_SIZE / 2 < (len - secremain).toUInt32 then (SECTOR_SIZE / 2).toUInt16
            else len - secremain)
          (addr + secremain.toUInt32 * 2) (buf.drop secremain.toNat) (len - secremain)
          (flashWritePage c (secpos * SECTOR_SIZE + FLASH_BASE) addr secoff secremain buf f)
          (by
            rw [addr', secpos', UInt16.toNat_zero]
            omega)
          (by decide)
          (nextPart (len - secremain))
          (by
            rw [addr', len']
            omega)
          (by rw [List.length_drop, len', buffer])
          (by omega)
        refine ⟨g, ended, ?_⟩
        rw [← List.take_append_drop secremain.toNat buf]
        refine page.append ?_
        rw [List.length_take_of_le (by omega)]
        rw [addr'] at rest
        rwa [show (addr.toNat + 2 * secremain.toNat) / 2
          = addr.toNat / 2 + secremain.toNat by omega] at rest

/-- More passes than the loop needs change nothing, by induction on the passes. -/
theorem flashWriteLoop_more {passes : Nat} {secpos : UInt32} {secoff secremain : UInt16}
    {addr : UInt32} {buf : List UInt16} {len : UInt16} {f g : State}
    (ended : flashWriteLoop c passes secpos secoff secremain addr buf len f = some g)
    {more : Nat} (enough : passes ≤ more)
    : flashWriteLoop c more secpos secoff secremain addr buf len f = some g := by
  induction passes generalizing secpos secoff secremain addr buf len f more with
  | zero => cases ended
  | succ passes ih =>
      obtain ⟨more, rfl⟩ := Nat.exists_eq_succ_of_ne_zero (show more ≠ 0 by omega)
      rw [flashWriteLoop] at ended ⊢
      simp only at ended ⊢
      split at ended
      · rename_i last
        rw [if_pos last]
        exact ended
      · rename_i unfinished
        rw [if_neg unfinished]
        exact ih ended (Nat.le_of_succ_le_succ enough)

/-- The page and the place in it that the entry computation finds for an address. -/
theorem entry_toNat {addr : UInt32} (above : FLASH_BASE ≤ addr)
    : ((addr - FLASH_BASE) / SECTOR_SIZE).toNat = (addr.toNat - 0x08000000) / 2048
      ∧ (((addr - FLASH_BASE) % SECTOR_SIZE) / 2).toUInt16.toNat
        = (addr.toNat - 0x08000000) % 2048 / 2 := by
  have offset : (addr - FLASH_BASE).toNat = addr.toNat - 0x08000000 :=
    UInt32.toNat_sub_of_le _ _ above
  have size : SECTOR_SIZE.toNat = 2048 := rfl
  have two : UInt32.toNat 2 = 2 := rfl
  rw [UInt32.toNat_div, UInt32.toNat_toUInt16, UInt32.toNat_div, UInt32.toNat_mod, offset, size,
    two]
  exact ⟨rfl, by omega⟩

/-- Writing a buffer into the bank ends, leaves the buffer in its range and every other
halfword as it was, and programs erased halfwords only. Witness: the entry computation
meets the invariant of the loop.
-/
theorem flashWrite_exact (ready : c.Ready) (page : c.page = SECTOR_SIZE.toNat)
    (addr : UInt32) (buf : List UInt16) (len : UInt16) (f : State)
    (even : addr.toNat % 2 = 0) (above : FLASH_BASE ≤ addr)
    (bound : addr.toNat + 2 * len.toNat ≤ (FLASH_BASE + BANK1 * SECTOR_SIZE).toNat)
    (buffer : buf.length = len.toNat)
    : ∃ g,
        (∀ passes, len.toNat < passes → flashWrite c passes addr buf len f = some g)
        ∧ f.memory.Updates blank g.memory (addr.toNat / 2) buf := by
  have base : FLASH_BASE.toNat = 0x08000000 := rfl
  have top : (FLASH_BASE + BANK1 * SECTOR_SIZE).toNat = 0x08000000 + 255 * 2048 := rfl
  have aboveNat := UInt32.le_iff_toNat_le.mp above
  by_cases atEnd : FLASH_BASE + BANK1 * SECTOR_SIZE ≤ addr
  · have endNat := UInt32.le_iff_toNat_le.mp atEnd
    have empty : buf = [] := List.eq_nil_of_length_eq_zero (by omega)
    refine ⟨f, fun passes _ => by simp only [flashWrite, atEnd, or_true, if_true], ?_⟩
    subst empty
    exact Memory.programAll_updates blank f.memory _ [] (fun _ inside => by cases inside)
  · have inBank : ¬ (addr < FLASH_BASE ∨ FLASH_BASE + BANK1 * SECTOR_SIZE ≤ addr) := by
      rintro (below | outside)
      · exact UInt32.not_lt.mpr above below
      · exact atEnd outside
    obtain ⟨secpos, secoff⟩ := entry_toNat above
    have part := firstPart len (((addr - FLASH_BASE) % SECTOR_SIZE) / 2).toUInt16 (by omega)
    have pass {passes : Nat} (enough : len.toNat < passes) :=
      flashWriteLoop_updates ready page passes _ _ _ addr buf len f
        (by
          rw [secpos, secoff]
          omega)
        (by omega) part (Nat.le_trans bound (Nat.le_of_eq top)) buffer enough
    obtain ⟨g, ended, updated⟩ := pass (Nat.lt_succ_self len.toNat)
    refine ⟨g, fun passes enough => ?_, updated⟩
    simp only [flashWrite, inBank, if_false]
    exact flashWriteLoop_more ended enough

/-- Two halfwords over the end of the first sector, in a flash that is programmed all over. -/
theorem flashWrite_exact_overEnd
    : ∃ g,
        (∀ passes, (2 : UInt16).toNat < passes
          → flashWrite ⟨2048, fun _ => 0⟩ passes 0x080007FE [0x1234, 0x5678] 2
              ⟨⟨fun cell => UInt16.ofNat cell, []⟩, 0⟩ = some g)
        ∧ Memory.Updates blank ⟨fun cell => UInt16.ofNat cell, []⟩ g.memory
            ((0x080007FE : UInt32).toNat / 2) [0x1234, 0x5678] :=
  flashWrite_exact (c := ⟨2048, fun _ => 0⟩) (Controller.ready_of_idle _ fun _ => rfl) rfl
    0x080007FE [0x1234, 0x5678] 2 ⟨⟨fun cell => UInt16.ofNat cell, []⟩, 0⟩ (by decide) (by decide)
    (by decide) (by decide)

end At32.Flash
