import At32.Drivers.FlashWrite

/-! Which pages and halfwords flash_write touches: only the start address is checked against
the bank, so the length decides whether it stays inside.
-/

namespace At32.Flash

open NorFlash Memory

/-- The operation touches cells of the bank only. -/
def InBank (op : Op UInt16) : Prop :=
  op.Within 1024 (FLASH_BASE.toNat / 2) ((FLASH_BASE + BANK1 * SECTOR_SIZE).toNat / 2)

variable (c : Controller)

-----------------------------------------------------------------------------------------
-- What an operation of the driver adds to the log, whether or not the controller takes it
-----------------------------------------------------------------------------------------

theorem flashErasePage_logsOnly {allowed : Op UInt16 → Prop} (addr : UInt32) (f : State)
    (page : allowed (.erase (addr.toNat / c.page)))
    : LogsOnly allowed f.memory (flashErasePage c addr f).2.memory := by
  simp only [flashErasePage]
  split
  · rw [flashWaitProcess_memory]
    refine ⟨[.erase (addr.toNat / c.page)], ?_, List.forall_mem_singleton.mpr page⟩
    simp only [erasePage, flashWaitProcess_memory]
  · rw [flashWaitProcess_memory]
    exact .refl allowed f.memory

theorem flashWriteHalfWord_logsOnly {allowed : Op UInt16 → Prop} (addr : UInt32)
    (data : UInt16) (f : State) (cell : ∀ held, allowed (.program (addr.toNat / 2) held))
    : LogsOnly allowed f.memory (flashWriteHalfWord c addr data f).2.memory := by
  simp only [flashWriteHalfWord]
  split
  · rw [flashWaitProcess_memory]
    let held := f.memory.cells (addr.toNat / 2)
    refine ⟨[.program (addr.toNat / 2) held], ?_, List.forall_mem_singleton.mpr (cell held)⟩
    simp only [program, flashWaitProcess_memory, held]
  · rw [flashWaitProcess_memory]
    exact .refl allowed f.memory

/-- Writing halfwords that end inside the address space programs their own cells only. -/
theorem flashWriteHalfWords_logsOnly {low high : Nat} (addr : UInt32) (data : List UInt16)
    (f : State) (fits : addr.toNat + 2 * data.length ≤ 2 ^ 32) (above : low ≤ addr.toNat / 2)
    (below : addr.toNat / 2 + data.length ≤ high)
    : LogsOnly (Op.Within 1024 low high) f.memory (flashWriteHalfWords c addr data f).memory
      := by
  induction data generalizing addr f with
  | nil => exact .refl _ f.memory
  | cons value rest ih =>
      simp only [List.length_cons] at fits below
      rw [flashWriteHalfWords]
      have first
          : LogsOnly (Op.Within 1024 low high) f.memory
              (flashWriteHalfWord c addr value f).2.memory :=
        flashWriteHalfWord_logsOnly c addr value f fun _ => ⟨above, by omega⟩
      cases rest with
      | nil => exact first
      | cons second rest =>
          simp only [List.length_cons] at fits below
          have next := addr_next addr (by omega)
          refine first.trans (ih (addr + 2) _ ?_ ?_ ?_) <;>
            simp only [next, List.length_cons] <;> omega

/-- Writing halfwords only adds to the log. -/
theorem flashWriteHalfWords_grows (addr : UInt32) (data : List UInt16) (f : State)
    : LogsOnly (fun _ => True) f.memory (flashWriteHalfWords c addr data f).memory := by
  induction data generalizing addr f with
  | nil => exact .refl _ f.memory
  | cons value rest ih =>
      exact (flashWriteHalfWord_logsOnly c addr value f fun _ => trivial).trans (ih _ _)

-----------------------------------------------------------------------------------------
-- One pass
-----------------------------------------------------------------------------------------

section Pass

variable (page : c.page = 2048) (sector addr : UInt32) (secoff secremain : UInt16)
  (buf : List UInt16) (f : State)
  (start : addr.toNat / 2 = sector.toNat / 2 + secoff.toNat)
  (aligned : sector.toNat % 2048 = 0)
include page start aligned

/-- One pass stays inside its page, whichever way it takes. -/
theorem flashWritePage_logsOnly (fits : secoff.toNat + secremain.toNat ≤ 1024)
    (bound : sector.toNat + 4096 ≤ 2 ^ 32)
    : LogsOnly (Op.Within 1024 (sector.toNat / 2) (sector.toNat / 2 + 1024)) f.memory
        (flashWritePage c sector addr secoff secremain buf f).memory := by
  simp only [flashWritePage]
  split
  · refine (flashErasePage_logsOnly c sector f ?_).trans ?_
    · rw [page]
      exact ⟨by omega, by omega⟩
    · have whole : ((SECTOR_SIZE / 2).toUInt16).toNat = 1024 := rfl
      rw [flashWritePageWord, whole]
      apply flashWriteHalfWords_logsOnly c
      · rw [List.length_take]
        omega
      · exact Nat.le_refl _
      · rw [List.length_take]
        omega
  · rw [flashWritePageWord]
    apply flashWriteHalfWords_logsOnly c
    · rw [List.length_take]
      omega
    · omega
    · rw [List.length_take]
      omega

/-- A pass over a page outside the bank that has something to write escapes: the erase or
the first halfword lies outside.
-/
theorem flashWritePage_escapes (ready : c.Ready)
    (outside : (FLASH_BASE + BANK1 * SECTOR_SIZE).toNat ≤ sector.toNat)
    (more : 0 < secremain.toNat) (buffer : secremain.toNat ≤ buf.length)
    : Escapes InBank f.memory (flashWritePage c sector addr secoff secremain buf f).memory := by
  have top : (FLASH_BASE + BANK1 * SECTOR_SIZE).toNat = 0x0807F800 := rfl
  simp only [flashWritePage]
  split
  · have erased : Escapes InBank f.memory (flashErasePage c sector f).2.memory := by
      rw [flashErasePage_memory ready, page]
      refine ⟨[.erase (sector.toNat / 2048)], rfl, _, .head _, fun inBank => ?_⟩
      have high := inBank.2
      omega
    exact erased.before (flashWriteHalfWords_grows c _ _ _)
  · obtain ⟨value, rest, taken⟩ : ∃ value rest, buf.take secremain.toNat = value :: rest :=
      List.exists_cons_of_length_pos (by
        rw [List.length_take]
        omega)
    have programmed : Escapes InBank f.memory (flashWriteHalfWord c addr value f).2.memory := by
      rw [flashWriteHalfWord_memory ready]
      refine ⟨[.program (addr.toNat / 2) _], rfl, _, .head _, fun inBank => ?_⟩
      have high := inBank.2
      omega
    rw [flashWritePageWord, taken]
    exact programmed.before (flashWriteHalfWords_grows c _ _ _)

end Pass

/-- One pass only adds to the log. -/
theorem flashWritePage_grows (sector addr : UInt32) (secoff secremain : UInt16)
    (buf : List UInt16) (f : State)
    : LogsOnly (fun _ => True) f.memory
        (flashWritePage c sector addr secoff secremain buf f).memory := by
  simp only [flashWritePage]
  split
  · exact (flashErasePage_logsOnly c sector f trivial).trans (flashWriteHalfWords_grows c _ _ _)
  · exact flashWriteHalfWords_grows c _ _ _

-----------------------------------------------------------------------------------------
-- The loop
-----------------------------------------------------------------------------------------

/-- What the loop keeps between two passes: the pointer is at its place in the page, and the
pass takes what the range has of that page.
-/
structure Place (secpos : UInt32) (secoff secremain : UInt16) (addr : UInt32)
    (buf : List UInt16) (len : UInt16)
    : Prop where
  start : addr.toNat / 2 = FLASH_BASE.toNat / 2 + 1024 * secpos.toNat + secoff.toNat
  inside : secoff.toNat < 1024
  part : secremain.toNat = min len.toNat (1024 - secoff.toNat)
  bank : secpos.toNat ≤ 255
  buffer : len.toNat ≤ buf.length

section Loop

variable {secpos : UInt32} {secoff secremain : UInt16} {addr : UInt32} {buf : List UInt16}
  {len : UInt16} (place : Place secpos secoff secremain addr buf len)
include place

/-- A pass that does not end the loop uses up its page and leaves the next one. -/
theorem Place.next (more : len ≠ secremain) (bank : secpos.toNat < 255)
    : Place (secpos + 1) 0
        (if SECTOR_SIZE / 2 < (len - secremain).toUInt32 then (SECTOR_SIZE / 2).toUInt16
          else len - secremain)
        (addr + secremain.toUInt32 * 2) (buf.drop secremain.toNat) (len - secremain)
      ∧ (len - secremain).toNat = len.toNat - secremain.toNat
      ∧ 0 < (len - secremain).toNat
      ∧ (addr + secremain.toUInt32 * 2).toNat / 2 = addr.toNat / 2 + secremain.toNat := by
  obtain ⟨start, inside, part, _, buffer⟩ := place
  have base : FLASH_BASE.toNat = 0x08000000 := rfl
  obtain ⟨shorter, len'⟩ := rest_toNat (by omega) more
  have addr' : (addr + secremain.toUInt32 * 2).toNat = addr.toNat + 2 * secremain.toNat :=
    addr_behind (by omega)
  have secpos' := secpos_next (Nat.le_of_lt bank)
  refine ⟨⟨?_, by decide, nextPart _, by omega, ?_⟩, len', by omega, by omega⟩
  · rw [addr', secpos', UInt16.toNat_zero]
    omega
  · rw [List.length_drop, len']
    omega

/-- A range inside the bank is written inside the bank, by induction on the passes. -/
theorem flashWriteLoop_inBank (page : c.page = 2048) (passes : Nat) (f : State)
    (bank : secpos.toNat < 255)
    (bound
      : addr.toNat / 2 + len.toNat ≤ (FLASH_BASE + BANK1 * SECTOR_SIZE).toNat / 2)
    (enough : len.toNat < passes)
    : ∃ g,
        flashWriteLoop c passes secpos secoff secremain addr buf len f = some g
        ∧ LogsOnly InBank f.memory g.memory := by
  induction passes generalizing secpos secoff secremain addr buf len f with
  | zero => omega
  | succ passes ih =>
      have base : FLASH_BASE.toNat = 0x08000000 := rfl
      have top : (FLASH_BASE + BANK1 * SECTOR_SIZE).toNat = 0x0807F800 := rfl
      have sector := sector_toNat place.bank
      have part := place.part
      have inside := place.inside
      have start := place.start
      have pass := flashWritePage_logsOnly c page (secpos * SECTOR_SIZE + FLASH_BASE) addr
        secoff secremain buf f (by omega) (by omega) (by omega) (by omega)
      have inBank : LogsOnly InBank f.memory
          (flashWritePage c (secpos * SECTOR_SIZE + FLASH_BASE) addr secoff secremain buf
            f).memory := by
        refine pass.mono fun op within => ?_
        cases op with
        | erase page =>
            obtain ⟨low, high⟩ := within
            exact ⟨by omega, by omega⟩
        | program cell held =>
            obtain ⟨low, high⟩ := within
            exact ⟨by omega, by omega⟩
      rw [flashWriteLoop]
      simp only
      split
      · exact ⟨_, rfl, inBank⟩
      · rename_i more
        obtain ⟨next, len', positive, addr'⟩ := place.next more bank
        have start' := next.start
        have secpos' := secpos_next place.bank
        rw [UInt16.toNat_zero] at start'
        obtain ⟨g, ended, rest⟩ := ih next
          (flashWritePage c (secpos * SECTOR_SIZE + FLASH_BASE) addr secoff secremain buf f)
          (by omega) (by omega) (by omega)
        exact ⟨g, ended, inBank.trans rest⟩

omit place in
/-- The loop ends wherever it starts, and only adds to the log. -/
theorem flashWriteLoop_ends (passes : Nat) (f : State) (inside : secoff.toNat < 1024)
    (part : secremain.toNat = min len.toNat (1024 - secoff.toNat))
    (enough : len.toNat < passes)
    : ∃ g,
        flashWriteLoop c passes secpos secoff secremain addr buf len f = some g
        ∧ LogsOnly (fun _ => True) f.memory g.memory := by
  induction passes generalizing secpos secoff secremain addr buf len f with
  | zero => omega
  | succ passes ih =>
      have pass := flashWritePage_grows c (secpos * SECTOR_SIZE + FLASH_BASE) addr secoff
        secremain buf f
      rw [flashWriteLoop]
      simp only
      split
      · exact ⟨_, rfl, pass⟩
      · rename_i more
        obtain ⟨shorter, len'⟩ := rest_toNat (by omega) more
        obtain ⟨g, ended, rest⟩ := ih
          (flashWritePage c (secpos * SECTOR_SIZE + FLASH_BASE) addr secoff secremain buf f)
          (by decide) (nextPart (len - secremain)) (by omega)
        exact ⟨g, ended, pass.trans rest⟩

/-- A range that ends outside the bank is written outside the bank too by a controller that
takes every operation: the passes come to the page behind the bank.
-/
theorem flashWriteLoop_escapes (ready : c.Ready) (page : c.page = 2048) (passes : Nat)
    (f : State) (nonempty : 0 < len.toNat)
    (beyond
      : (FLASH_BASE + BANK1 * SECTOR_SIZE).toNat / 2 < addr.toNat / 2 + len.toNat)
    (enough : len.toNat < passes)
    : ∃ g,
        flashWriteLoop c passes secpos secoff secremain addr buf len f = some g
        ∧ Escapes InBank f.memory g.memory := by
  induction passes generalizing secpos secoff secremain addr buf len f with
  | zero => omega
  | succ passes ih =>
      have base : FLASH_BASE.toNat = 0x08000000 := rfl
      have top : (FLASH_BASE + BANK1 * SECTOR_SIZE).toNat = 0x0807F800 := rfl
      have sector := sector_toNat place.bank
      have part := place.part
      have inside := place.inside
      have start := place.start
      have bank := place.bank
      have buffer := place.buffer
      by_cases last : secpos.toNat = 255
      · have escaped := flashWritePage_escapes c page (secpos * SECTOR_SIZE + FLASH_BASE) addr
          secoff secremain buf f (by omega) (by omega) ready (by omega) (by omega) (by omega)
        rw [flashWriteLoop]
        simp only
        split
        · exact ⟨_, rfl, escaped⟩
        · rename_i more
          obtain ⟨shorter, len'⟩ := rest_toNat (by omega) more
          obtain ⟨g, ended, rest⟩ := flashWriteLoop_ends c passes
            (flashWritePage c (secpos * SECTOR_SIZE + FLASH_BASE) addr secoff secremain buf f)
            (by decide) (nextPart (len - secremain)) (by omega)
          exact ⟨g, ended, escaped.before rest⟩
      · rw [flashWriteLoop]
        simp only
        split
        · rename_i ends
          subst ends
          omega
        · rename_i more
          obtain ⟨next, len', positive, addr'⟩ := place.next more (by omega)
          obtain ⟨g, ended, rest⟩ := ih next
            (flashWritePage c (secpos * SECTOR_SIZE + FLASH_BASE) addr secoff secremain buf f)
            positive (by omega) (by omega)
          exact ⟨g, ended, rest.after (flashWritePage_grows c _ _ _ _ _ f)⟩

end Loop

-----------------------------------------------------------------------------------------
-- The whole function
-----------------------------------------------------------------------------------------

/-- The entry check of flash_write lets the address pass. -/
def PassesEntry (addr : UInt32) : Prop :=
  ¬ (addr < FLASH_BASE ∨ FLASH_BASE + BANK1 * SECTOR_SIZE ≤ addr)

instance (addr : UInt32) : Decidable (PassesEntry addr) :=
  inferInstanceAs (Decidable (¬ _))

/-- The call ends, and whatever the controller reports every page it erases and every
halfword it programs lies in the bank.
-/
def StaysInBank (addr : UInt32) (buf : List UInt16) (len : UInt16) : Prop :=
  ∀ c : Controller,
    c.page = SECTOR_SIZE.toNat
    → ∀ f, ∃ g,
        (∀ passes, len.toNat < passes → flashWrite c passes addr buf len f = some g)
        ∧ LogsOnly InBank f.memory g.memory

/-- The entry computation places the first pass. -/
theorem place_entry (addr : UInt32) (buf : List UInt16) (len : UInt16)
    (entry : PassesEntry addr) (buffer : len.toNat ≤ buf.length)
    : let secoff := (((addr - FLASH_BASE) % SECTOR_SIZE) / 2).toUInt16
      let secremain := (SECTOR_SIZE / 2 - secoff.toUInt32).toUInt16
      Place ((addr - FLASH_BASE) / SECTOR_SIZE) secoff
        (if len ≤ secremain then len else secremain) addr buf len
      ∧ ((addr - FLASH_BASE) / SECTOR_SIZE).toNat < 255 := by
  have base : FLASH_BASE.toNat = 0x08000000 := rfl
  have top : (FLASH_BASE + BANK1 * SECTOR_SIZE).toNat = 0x0807F800 := rfl
  obtain ⟨notBelow, notBeyond⟩ := not_or.mp entry
  have above : FLASH_BASE ≤ addr := UInt32.not_lt.mp notBelow
  have aboveNat := UInt32.le_iff_toNat_le.mp above
  have belowNat := mt UInt32.le_iff_toNat_le.mpr notBeyond
  obtain ⟨secpos, secoff⟩ := entry_toNat above
  have inside : (((addr - FLASH_BASE) % SECTOR_SIZE) / 2).toUInt16.toNat < 1024 := by omega
  exact ⟨⟨by omega, inside, firstPart len _ inside, by omega, buffer⟩, by omega⟩

/-- Behind the entry check the call is the loop. -/
theorem flashWrite_loop (addr : UInt32) (buf : List UInt16) (len : UInt16)
    (entry : PassesEntry addr) (passes : Nat) (f : State)
    : flashWrite c passes addr buf len f
      = (let secoff := (((addr - FLASH_BASE) % SECTOR_SIZE) / 2).toUInt16
        let secremain := (SECTOR_SIZE / 2 - secoff.toUInt32).toUInt16
        flashWriteLoop c passes ((addr - FLASH_BASE) / SECTOR_SIZE) secoff
          (if len ≤ secremain then len else secremain) addr buf len f) :=
  if_neg entry

/-- A call for halfwords that end behind the bank leaves it. Witness: a controller that is
never busy takes every operation.
-/
theorem flashWrite_leaves (addr : UInt32) (buf : List UInt16) (len : UInt16)
    (entry : PassesEntry addr) (buffer : len.toNat ≤ buf.length) (nonempty : 0 < len.toNat)
    (beyond
      : (FLASH_BASE + BANK1 * SECTOR_SIZE).toNat / 2 < addr.toNat / 2 + len.toNat)
    : ¬ StaysInBank addr buf len := by
  intro stays
  obtain ⟨place, _⟩ := place_entry addr buf len entry buffer
  let c : Controller := ⟨2048, fun _ => 0⟩
  let f : State := ⟨⟨fun _ => blank, []⟩, 0⟩
  have ready : c.Ready := c.ready_of_idle fun _ => rfl
  obtain ⟨g, ended, logs⟩ := stays c rfl f
  obtain ⟨g', ended', escapes⟩ :=
    flashWriteLoop_escapes c place ready rfl (len.toNat + 1) f nonempty beyond
      (Nat.lt_succ_self _)
  have same := ended (len.toNat + 1) (Nat.lt_succ_self _)
  rw [flashWrite_loop c addr buf len entry] at same
  obtain rfl := Option.some.inj (same.symm.trans ended')
  exact logs.not_escapes escapes

/-- A call whose address passes the entry check stays in the bank exactly when it writes
nothing or its last halfword lies in the bank.
-/
theorem flashWrite_staysInBank_iff (addr : UInt32) (buf : List UInt16) (len : UInt16)
    (entry : PassesEntry addr) (buffer : len.toNat ≤ buf.length)
    : StaysInBank addr buf len
      ↔ len = 0
        ∨ addr.toNat / 2 + len.toNat ≤ (FLASH_BASE + BANK1 * SECTOR_SIZE).toNat / 2 := by
  constructor
  · intro stays
    by_contra leaves
    obtain ⟨nonempty, beyond⟩ := not_or.mp leaves
    have positive : 0 < len.toNat :=
      Nat.pos_of_ne_zero fun zero => nonempty (UInt16.toNat_inj.mp zero)
    exact flashWrite_leaves addr buf len entry buffer positive (Nat.lt_of_not_le beyond) stays
  · intro condition c page f
    obtain ⟨place, bank⟩ := place_entry addr buf len entry buffer
    have top : (FLASH_BASE + BANK1 * SECTOR_SIZE).toNat = 0x0807F800 := rfl
    have inBank : addr.toNat < (FLASH_BASE + BANK1 * SECTOR_SIZE).toNat := by
      rw [← UInt32.lt_iff_toNat_lt]
      exact UInt32.not_le.mp (not_or.mp entry).2
    have bound : addr.toNat / 2 + len.toNat
        ≤ (FLASH_BASE + BANK1 * SECTOR_SIZE).toNat / 2 := by
      rcases condition with rfl | bound
      · rw [UInt16.toNat_zero]
        omega
      · exact bound
    obtain ⟨g, ended, logs⟩ :=
      flashWriteLoop_inBank c place page (len.toNat + 1) f bank bound (Nat.lt_succ_self _)
    refine ⟨g, fun passes enough => ?_, logs⟩
    rw [flashWrite_loop c addr buf len entry]
    exact flashWriteLoop_more ended enough

/-- One halfword at the flash base. -/
theorem flashWrite_staysInBank_base
    : StaysInBank FLASH_BASE [0x1234] 1
      ↔ (1 : UInt16) = 0
        ∨ FLASH_BASE.toNat / 2 + (1 : UInt16).toNat
          ≤ (FLASH_BASE + BANK1 * SECTOR_SIZE).toNat / 2 :=
  flashWrite_staysInBank_iff FLASH_BASE [0x1234] 1 (by decide) (by decide)

/-- Two halfwords from the last halfword of the bank on leave it. -/
theorem flashWrite_leaves_last : ¬ StaysInBank 0x0807F7FE [0x1234, 0x5678] 2 :=
  flashWrite_leaves 0x0807F7FE [0x1234, 0x5678] 2 (by decide) (by decide)
    (by decide) (by decide)

end At32.Flash
