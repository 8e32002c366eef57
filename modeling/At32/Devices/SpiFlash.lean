import At32.Lib.SerialFlash

/-! The driver of the SPI flash: what its functions do to the chip, and when a block that was
written is read back.
-/

namespace At32.SpiFlash

open CellWalk Port SerialFlash

abbrev SECSIZE : UInt32 := 4096
abbrev PAGESIZE : UInt32 := 256
abbrev SEND_DEFAULT_VALUE : UInt8 := 0xFF
abbrev FLASH_FAST_READ : UInt8 := 0x03
abbrev FLASH_READ_STATUS : UInt8 := 0x05
abbrev FLASH_WRITE_ENABLE : UInt8 := 0x06
abbrev FLASH_PAGE_PROGRAM : UInt8 := 0x02
abbrev FLASH_SECTOR_ERASE : UInt8 := 0x20
abbrev FLASH_TIMEOUT_WEIRTE : UInt32 := 0x5000
abbrev FLASH_TIMEOUT_ERASE : UInt32 := 0x50000000

/-- Programs on the SPI port. -/
abbrev Spi := Program SerialFlash.Action UInt8

def cs (status : UInt8) : Spi Unit := .emit (.select (status != 0))

def xferData (data : UInt8) : Spi UInt8 := .exchange (.transfer data)

/-- spi_flash_write_enable -/
def spiFlashWriteEnable : Spi Unit := do
  cs 0
  let _ ← xferData FLASH_WRITE_ENABLE
  cs 1

/-- spi_flash_read_register -/
def spiFlashReadRegister : Spi UInt8 := do
  cs 0
  let _ ← xferData FLASH_READ_STATUS
  let status ← xferData SEND_DEFAULT_VALUE
  cs 1
  return status

/-- spi_flash_wait_busy, by recursion on the timeout that is left. -/
def spiFlashWaitBusy : (timeout : Nat) → Spi Unit
  | 0 => do
      let _ ← spiFlashReadRegister
      return ()
  | timeout + 1 => do
      let status ← spiFlashReadRegister
      if status &&& 0x1 ≠ 0 then spiFlashWaitBusy timeout else return ()

/-- spi_flash_erase -/
def spiFlashErase (addr : UInt32) : Spi Unit := do
  spiFlashWriteEnable
  spiFlashWaitBusy FLASH_TIMEOUT_WEIRTE.toNat
  cs 0
  let _ ← xferData FLASH_SECTOR_ERASE
  let _ ← xferData (addr >>> 16).toUInt8
  let _ ← xferData (addr >>> 8).toUInt8
  let _ ← xferData addr.toUInt8
  cs 1
  spiFlashWaitBusy FLASH_TIMEOUT_ERASE.toNat

/-- The loop of spi_flash_read. -/
def readLoop : (count : Nat) → Spi (List UInt8)
  | 0 => return []
  | count + 1 => do
      let byte ← xferData SEND_DEFAULT_VALUE
      let rest ← readLoop count
      return byte :: rest

/-- spi_flash_read: what it stores in the buffer, and the size of its pointer. -/
def spiFlashRead (addr len : UInt32) : Spi (List UInt8 × UInt32) := do
  cs 0
  let _ ← xferData FLASH_FAST_READ
  let _ ← xferData (addr >>> 16).toUInt8
  let _ ← xferData (addr >>> 8).toUInt8
  let _ ← xferData addr.toUInt8
  let buf ← readLoop len.toNat
  cs 1
  return (buf, 4)

/-- The loop of spi_flash_write. -/
def writeLoop : List UInt8 → Spi Unit
  | [] => return ()
  | byte :: rest => do
      let _ ← xferData byte
      writeLoop rest

/-- spi_flash_write, for a buffer of at least (len) bytes. -/
def spiFlashWrite (addr : UInt32) (buf : List UInt8) (len : UInt32) : Spi UInt32 := do
  spiFlashErase (addr / SECSIZE * SECSIZE)
  let len := if PAGESIZE < len then PAGESIZE else len
  spiFlashWriteEnable
  spiFlashWaitBusy FLASH_TIMEOUT_WEIRTE.toNat
  cs 0
  let _ ← xferData FLASH_PAGE_PROGRAM
  let _ ← xferData (addr >>> 16).toUInt8
  let _ ← xferData (addr >>> 8).toUInt8
  let _ ← xferData addr.toUInt8
  writeLoop (buf.take len.toNat)
  cs 1
  spiFlashWaitBusy FLASH_TIMEOUT_WEIRTE.toNat
  return len

/-- A block is written, and as many bytes as were written are read from its start. -/
def writeThenRead (addr : UInt32) (buf : List UInt8) (len : UInt32)
    : Spi (UInt32 × List UInt8) := do
  let written ← spiFlashWrite addr buf len
  let (out, _) ← spiFlashRead addr written
  return (written, out)

/-- The chip is ready within the timeouts of the driver. -/
structure InTime (timing : Timing) : Prop where
  erase : timing.erase ≤ FLASH_TIMEOUT_ERASE.toNat
  program : timing.program ≤ FLASH_TIMEOUT_WEIRTE.toNat

/-- The cell that the chip takes an address for. -/
def cellOf (addr : UInt32) : Nat := addr.toNat % 0x1000000

theorem address_cellOf (addr : UInt32)
    : address (addr >>> 16).toUInt8 (addr >>> 8).toUInt8 addr.toUInt8 = cellOf addr := by
  simp only [address, cellOf, UInt32.toNat_toUInt8, UInt32.toNat_shiftRight,
    Nat.shiftRight_eq_div_pow]
  have upper : (16 : UInt32).toNat % 32 = 16 := rfl
  have lower : (8 : UInt32).toNat % 32 = 8 := rfl
  rw [upper, lower]
  omega

-----------------------------------------------------------------------------------------
-- What the functions do to the chip
-----------------------------------------------------------------------------------------

variable {timing : Timing} {cells : Nat → UInt8} {enabled : Bool}

theorem spiFlashWriteEnable_spec
    : Spec timing (Between cells enabled 0) spiFlashWriteEnable
        (fun _ => Between cells true 0) := by
  refine Spec.select.bind fun _ => ?_
  refine (Spec.transfer FLASH_WRITE_ENABLE (by simp)).bind fun _ => ?_
  exact Spec.enable

/-- A status register that is read shows one reading less to wait for. -/
theorem spiFlashReadRegister_spec {busy : Nat}
    : Spec timing (Between cells enabled busy) spiFlashReadRegister
        (fun status s =>
          (status &&& 1 ≠ 0 ↔ busy ≠ 0) ∧ Between cells enabled (busy - 1) s) := by
  refine Spec.select.bind fun _ => ?_
  refine (Spec.transfer FLASH_READ_STATUS (by simp)).bind fun _ => ?_
  refine (Spec.status SEND_DEFAULT_VALUE).bind fun status => .and_pre fun shown => ?_
  refine (Spec.ignored fun _ ended => Chip.command_status ended).bind fun _ => ?_
  exact .done fun s here => ⟨shown, here⟩

/-- A chip that is ready within the timeout is waited for, by induction on the timeout. -/
theorem spiFlashWaitBusy_spec {busy timeout : Nat} (inTime : busy ≤ timeout)
    : Spec timing (Between cells enabled busy) (spiFlashWaitBusy timeout)
        (fun _ => Between cells enabled 0) := by
  induction timeout generalizing busy with
  | zero =>
      obtain rfl := Nat.le_zero.mp inTime
      refine spiFlashReadRegister_spec.bind fun status => .and_pre fun _ => ?_
      exact .done fun s here => here
  | succ timeout ih =>
      refine spiFlashReadRegister_spec.bind fun status => .and_pre fun shown => ?_
      split
      · exact ih (Nat.sub_le_of_le_add inTime)
      · rename_i clear
        have idle : busy = 0 := by_contra fun waits => clear (shown.mpr waits)
        subst idle
        exact .done fun s here => here

/-- The four bytes that begin a command on cells. -/
theorem request_spec {ρ : Type} {command : UInt8} (other : command ≠ READ_STATUS)
    (addr : UInt32) {rest : Spi ρ} {post : ρ → Chip → Prop}
    (tail
      : Spec timing
          (Amid cells enabled 0
            [command, (addr >>> 16).toUInt8, (addr >>> 8).toUInt8, addr.toUInt8])
          rest post)
    : Spec timing (Between cells enabled 0)
        (do
          cs 0
          let _ ← xferData command
          let _ ← xferData (addr >>> 16).toUInt8
          let _ ← xferData (addr >>> 8).toUInt8
          let _ ← xferData addr.toUInt8
          rest)
        post := by
  refine Spec.select.bind fun _ => ?_
  refine (Spec.transfer command (by simp)).bind fun _ => ?_
  refine (Spec.transfer _ (by simpa using other)).bind fun _ => ?_
  refine (Spec.transfer _ (by simpa using other)).bind fun _ => ?_
  exact (Spec.transfer _ (by simpa using other)).bind fun _ => tail

/-- The erase of a sector, behind which the latch is clear. -/
theorem spiFlashErase_spec (inTime : InTime timing) (addr : UInt32)
    : Spec timing (Between cells enabled 0) (spiFlashErase addr)
        (fun _ => Between (eraseSector cells (cellOf addr)) false 0) := by
  refine spiFlashWriteEnable_spec.bind fun _ => ?_
  refine (spiFlashWaitBusy_spec (Nat.zero_le _)).bind fun _ => ?_
  refine request_spec (by decide) addr ?_
  rw [← address_cellOf]
  refine (Spec.erase _ _ _).bind fun _ => ?_
  exact spiFlashWaitBusy_spec inTime.erase

/-- The bytes that are still to be read, by induction on their number. -/
theorem readLoop_spec (high middle low : UInt8) (count : Nat) (shifted : List UInt8)
    : Spec timing (Amid cells enabled 0 (FLASH_FAST_READ :: high :: middle :: low :: shifted))
        (readLoop count)
        (fun buf s =>
          buf
            = readAll nextCell cells (nextCell^[shifted.length] (address high middle low)) count
          ∧ ∃ shifted,
              Amid cells enabled 0 (FLASH_FAST_READ :: high :: middle :: low :: shifted) s) := by
  induction count generalizing shifted with
  | zero => exact .done fun s here => ⟨rfl, shifted, here⟩
  | succ count ih =>
      refine (Spec.receive SEND_DEFAULT_VALUE high middle low shifted).bind fun byte => ?_
      refine .and_pre fun first => (ih _).bind fun rest => .and_pre fun later => ?_
      refine .done fun s here => ⟨?_, here⟩
      rw [first, later, List.length_append, List.length_singleton,
        Function.iterate_succ_apply', readAll]

/-- A read returns what the cells hold and changes nothing. -/
theorem spiFlashRead_spec (addr len : UInt32)
    : Spec timing (Between cells enabled 0) (spiFlashRead addr len)
        (fun result s =>
          result = (readAll nextCell cells (cellOf addr) len.toNat, 4)
          ∧ Between cells enabled 0 s) := by
  refine request_spec (by decide) addr ?_
  refine (readLoop_spec _ _ _ len.toNat []).bind fun buf => .and_pre fun found => ?_
  refine .exists_pre fun shifted => ?_
  refine (Spec.ignored fun _ ended => Chip.command_read ended).bind fun _ => ?_
  refine .done fun s here => ⟨?_, here⟩
  rw [found, List.length_nil, Function.iterate_zero_apply, address_cellOf]

/-- The bytes of a page program, by induction on them. -/
theorem writeLoop_spec {received : List UInt8} (begun : received ≠ [])
    (other : received.head? ≠ some READ_STATUS) (data : List UInt8)
    : Spec timing (Amid cells enabled 0 received) (writeLoop data)
        (fun _ => Amid cells enabled 0 (received ++ data)) := by
  induction data generalizing received with
  | nil => exact .done fun s here => by rwa [List.append_nil]
  | cons byte rest ih =>
      refine (Spec.transfer byte other).bind fun _ => ?_
      have tail := @ih (received ++ [byte]) (by simp)
        (by rwa [List.head?_append_of_ne_nil _ begun])
      rwa [List.append_assoc] at tail

/-- The number of bytes that a write sends. -/
def pageLen (len : UInt32) : UInt32 := if PAGESIZE < len then PAGESIZE else len

theorem pageLen_toNat (len : UInt32) : (pageLen len).toNat = min len.toNat 256 := by
  unfold pageLen
  split
  · rename_i long
    have bound : 256 < len.toNat := UInt32.lt_iff_toNat_lt.mp long
    exact (Nat.min_eq_right (Nat.le_of_lt bound)).symm
  · rename_i short
    have bound : len.toNat ≤ 256 := Nat.le_of_not_lt fun long =>
      short (UInt32.lt_iff_toNat_lt.mpr long)
    exact (Nat.min_eq_left bound).symm

/-- A write erases the sector of its address, programs the bytes that it sends and returns
their number.
-/
theorem spiFlashWrite_spec (inTime : InTime timing) (addr : UInt32) (buf : List UInt8)
    (len : UInt32)
    : Spec timing (Between cells enabled 0) (spiFlashWrite addr buf len)
        (fun written s =>
          written = pageLen len
          ∧ ∃ latch,
              Between
                (programPage (eraseSector cells (cellOf addr)) (cellOf addr)
                  (buf.take (pageLen len).toNat))
                latch 0 s) := by
  have sector : eraseSector cells (cellOf (addr / SECSIZE * SECSIZE))
      = eraseSector cells (cellOf addr) := by
    have start : (addr / SECSIZE * SECSIZE).toNat = addr.toNat / 4096 * 4096 := by
      rw [UInt32.toNat_mul, UInt32.toNat_div]
      have small := addr.toNat_lt
      change addr.toNat / 4096 * 4096 % 2 ^ 32 = _
      omega
    have same : cellOf (addr / SECSIZE * SECSIZE) / 4096 = cellOf addr / 4096 := by
      simp only [cellOf, start]
      omega
    unfold eraseSector
    rw [same]
  have notStatus : FLASH_PAGE_PROGRAM ≠ READ_STATUS := by decide
  refine (spiFlashErase_spec inTime _).bind fun _ => ?_
  rw [sector]
  refine spiFlashWriteEnable_spec.bind fun _ => ?_
  refine (spiFlashWaitBusy_spec (Nat.zero_le _)).bind fun _ => ?_
  refine request_spec (by decide) addr ?_
  refine (writeLoop_spec (by simp) (by simp [notStatus]) _).bind fun _ => ?_
  rw [← address_cellOf]
  change Spec timing
    (Amid _ true 0 ([FLASH_PAGE_PROGRAM, _, _, _] ++ buf.take (pageLen len).toNat)) _ _
  cases buf.take (pageLen len).toNat with
  | nil =>
      refine (Spec.ignored fun _ ended => Chip.command_empty ended).bind fun _ => ?_
      refine (spiFlashWaitBusy_spec (Nat.zero_le _)).bind fun _ => ?_
      exact .done fun s here => ⟨rfl, true, here⟩
  | cons first rest =>
      refine (Spec.program _ _ _ first rest).bind fun _ => ?_
      refine (spiFlashWaitBusy_spec inTime.program).bind fun _ => ?_
      exact .done fun s here => ⟨rfl, false, here⟩

-----------------------------------------------------------------------------------------
-- Blocks
-----------------------------------------------------------------------------------------

/-- A block that is written is read back exactly when each of its bytes that would lie behind
the end of the page is what lies there once the sector of the address is erased: 0xFF in that
sector, and otherwise what the chip holds.
-/
theorem writeThenRead_iff (inTime : InTime timing) (addr : UInt32) (buf : List UInt8)
    (len : UInt32) (room : len.toNat ≤ buf.length) (s : Chip) (released : s.selected = false)
    (idle : s.busy = 0)
    : (((writeThenRead addr buf len).run (chip timing) s).1.2
        = buf.take ((writeThenRead addr buf len).run (chip timing) s).1.1.toNat)
      ↔ ∀ k < min len.toNat 256,
          256 ≤ addr.toNat % 256 + k
          → buf[k]?
            = some (eraseSector s.cells (cellOf addr) ((cellOf addr + k) % 0x1000000)) := by
  have start : Between s.cells s.enabled 0 s :=
    { cells := rfl, selected := released, enabled := rfl, busy := idle }
  have within : cellOf addr < 0x1000000 := Nat.mod_lt _ (by decide)
  have spec : Spec timing (Between s.cells s.enabled 0) (writeThenRead addr buf len)
      (fun result _ =>
        result.1 = pageLen len
        ∧ result.2
          = readAll nextCell
              (programPage (eraseSector s.cells (cellOf addr)) (cellOf addr)
                (buf.take (pageLen len).toNat))
              (cellOf addr) (pageLen len).toNat) := by
    refine (spiFlashWrite_spec inTime addr buf len).bind fun written => .and_pre fun sent => ?_
    subst sent
    refine .exists_pre fun latch => (spiFlashRead_spec addr _).bind fun result => ?_
    exact .and_pre fun read => .done fun s _ => ⟨rfl, by rw [read]⟩
  obtain ⟨written, out⟩ := spec.holds start
  have length : (buf.take (pageLen len).toNat).length = (pageLen len).toNat := by
    rw [List.length_take, pageLen_toNat]
    omega
  have short : (buf.take (pageLen len).toNat).length ≤ 256 := by
    rw [length, pageLen_toNat]
    exact Nat.min_le_right _ _
  have page : cellOf addr % 256 = addr.toNat % 256 := by
    unfold cellOf
    omega
  have block := readBack_iff s.cells within short
  rw [length] at block
  rw [written, out, block, pageLen_toNat, page]
  refine forall₃_congr fun k sent behind => ?_
  rw [List.getElem?_take_of_lt sent]

/-- An erased chip. -/
def erasedChip : Chip :=
  {
    cells := fun _ => 0xFF
    selected := false
    received := []
    enabled := false
    busy := 0
    reply := 0xFF
  }

/-- A chip that shows busy a few times. -/
def fewReadings : Timing := { erase := 3, program := 2 }

/-- Two bytes at the test address of the example project. -/
theorem writeThenRead_testAddr
    : (((writeThenRead 0x001000 [0x68, 0x65] 2).run (chip fewReadings) erasedChip).1.2
        = [0x68, 0x65].take
            ((writeThenRead 0x001000 [0x68, 0x65] 2).run (chip fewReadings)
              erasedChip).1.1.toNat)
      ↔ ∀ k < min (2 : UInt32).toNat 256,
          256 ≤ (0x001000 : UInt32).toNat % 256 + k
          → [0x68, 0x65][k]?
            = some
                (eraseSector erasedChip.cells (cellOf 0x001000)
                  ((cellOf 0x001000 + k) % 0x1000000)) :=
  writeThenRead_iff { erase := by decide, program := by decide } 0x001000 [0x68, 0x65] 2
    (by decide) erasedChip rfl rfl

/-- Over the end of a page the second byte is lost. -/
theorem writeThenRead_lost_pageEnd
    : ((writeThenRead 0x0010FF [0x68, 0x65] 2).run (chip fewReadings) erasedChip).1.2
      ≠ [0x68, 0x65].take
          ((writeThenRead 0x0010FF [0x68, 0x65] 2).run (chip fewReadings)
            erasedChip).1.1.toNat := by
  decide +kernel

-----------------------------------------------------------------------------------------
-- The other cells
-----------------------------------------------------------------------------------------

/-- A write keeps every cell behind those of the bytes it returns exactly when each byte that
would lie behind the end of the page is what its cell at the start of the page holds, and when
no other cell of the sector holds anything but 0xFF: the sector is erased and never read first.
-/
theorem spiFlashWrite_kept_iff (inTime : InTime timing) (addr : UInt32) (buf : List UInt8)
    (len : UInt32) (room : len.toNat ≤ buf.length) (s : Chip) (released : s.selected = false)
    (idle : s.busy = 0)
    : (∀ cell < 0x1000000,
        (∀ k < ((spiFlashWrite addr buf len).run (chip timing) s).1.toNat,
          cell ≠ (cellOf addr + k) % 0x1000000)
        → ((spiFlashWrite addr buf len).run (chip timing) s).2.cells cell = s.cells cell)
      ↔ (∀ k < min len.toNat 256,
          256 ≤ addr.toNat % 256 + k → buf[k]? = some (s.cells (cellOf addr + k - 256)))
        ∧ ∀ cell,
            cell / 4096 = cellOf addr / 4096
            → (∀ k < min len.toNat 256, cell ≠ (cellOf addr + k) % 0x1000000)
            → (∀ k < min len.toNat 256,
                cell ≠ cellOf addr / 256 * 256 + (cellOf addr + k) % 256)
            → s.cells cell = 0xFF := by
  have start : Between s.cells s.enabled 0 s :=
    { cells := rfl, selected := released, enabled := rfl, busy := idle }
  have within : cellOf addr < 0x1000000 := Nat.mod_lt _ (by decide)
  obtain ⟨written, latch, left⟩ := (spiFlashWrite_spec inTime addr buf len).holds start
  rw [pageLen_toNat] at left
  have length : (buf.take (min len.toNat 256)).length = min len.toNat 256 := by
    rw [List.length_take]
    omega
  have page : cellOf addr % 256 = addr.toNat % 256 := by
    unfold cellOf
    omega
  have short : (buf.take (min len.toNat 256)).length ≤ 256 := by
    rw [length]
    exact Nat.min_le_right _ _
  have frame := kept_iff s.cells within short
  simp only [length, nextCell_iterate _ within, nextInPage_iterate, page] at frame
  rw [written, left.cells, pageLen_toNat, frame]
  refine and_congr_left' (forall₃_congr fun k sent behind => ?_)
  rw [List.getElem?_take_of_lt sent]

/-- Two bytes to the test address of an erased chip. -/
theorem spiFlashWrite_kept_testAddr
    : (∀ cell < 0x1000000,
        (∀ k < ((spiFlashWrite 0x001000 [0x68, 0x65] 2).run (chip fewReadings)
            erasedChip).1.toNat,
          cell ≠ (cellOf 0x001000 + k) % 0x1000000)
        → ((spiFlashWrite 0x001000 [0x68, 0x65] 2).run (chip fewReadings) erasedChip).2.cells
            cell
          = erasedChip.cells cell)
      ↔ (∀ k < min (2 : UInt32).toNat 256,
          256 ≤ (0x001000 : UInt32).toNat % 256 + k
          → [0x68, 0x65][k]? = some (erasedChip.cells (cellOf 0x001000 + k - 256)))
        ∧ ∀ cell,
            cell / 4096 = cellOf 0x001000 / 4096
            → (∀ k < min (2 : UInt32).toNat 256, cell ≠ (cellOf 0x001000 + k) % 0x1000000)
            → (∀ k < min (2 : UInt32).toNat 256,
                cell ≠ cellOf 0x001000 / 256 * 256 + (cellOf 0x001000 + k) % 256)
            → erasedChip.cells cell = 0xFF :=
  spiFlashWrite_kept_iff { erase := by decide, program := by decide } 0x001000 [0x68, 0x65] 2
    (by decide) erasedChip rfl rfl

/-- A chip that holds one byte behind the two at the test address. -/
def neighbourChip : Chip :=
  { erasedChip with cells := fun cell => if cell = 0x001002 then 0x6C else 0xFF }

/-- The byte behind the two that are written is erased. -/
theorem spiFlashWrite_lost_neighbour
    : ¬∀ cell < 0x1000000,
        (∀ k < ((spiFlashWrite 0x001000 [0x68, 0x65] 2).run (chip fewReadings)
            neighbourChip).1.toNat,
          cell ≠ (cellOf 0x001000 + k) % 0x1000000)
        → ((spiFlashWrite 0x001000 [0x68, 0x65] 2).run (chip fewReadings)
              neighbourChip).2.cells
            cell
          = neighbourChip.cells cell := by
  intro kept
  have outside : ∀ k < ((spiFlashWrite 0x001000 [0x68, 0x65] 2).run (chip fewReadings)
      neighbourChip).1.toNat, 0x001002 ≠ (cellOf 0x001000 + k) % 0x1000000 := by
    decide +kernel
  have erased : ((spiFlashWrite 0x001000 [0x68, 0x65] 2).run (chip fewReadings)
      neighbourChip).2.cells 0x001002 ≠ neighbourChip.cells 0x001002 := by
    decide +kernel
  exact erased (kept 0x001002 (by decide) outside)

end At32.SpiFlash
