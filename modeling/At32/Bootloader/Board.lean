import At32.Bootloader.State
import At32.Drivers.Flash

/-! The configuration that main.c hands to the bootloader, and the promises a configuration
makes about the flash it describes.
-/

namespace At32.Bootloader

open Flash

abbrev APP_ADDRESS : UInt32 := 0x08008000
abbrev PACKET_SIZE : UInt32 := 256

def blTestFunc : BlTestFuncOps :=
  {
    flashSize := FLASH_SIZE
    flashSectorSize := SECTOR_SIZE
    packetSize := PACKET_SIZE
    deviceId := BOOTLOADER_VERSION
    appAddress := APP_ADDRESS
  }

/-- A bootloader configuration for a flash of whole sectors at a sector boundary, with the
bootloader in at least the first sector of the address space below the application.
-/
structure Board where
  ops : BlTestFuncOps
  flashBase : UInt32
  packetRoom : ops.packetSize.toNat ≤ LENGTH
  sectorPositive : 0 < ops.flashSectorSize.toNat
  sectorEven : ops.flashSectorSize.toNat % 2 = 0
  baseAligned : flashBase.toNat % ops.flashSectorSize.toNat = 0
  sectorCount : ops.flashSize.toNat / ops.flashSectorSize.toNat < 2 ^ 16
  flashRoom : flashBase.toNat + ops.flashSize.toNat ≤ 2 ^ 32
  appInFlash : flashBase ≤ ops.appAddress
  belowApp : ops.flashSectorSize ≤ ops.appAddress

/-- The size of a sector in bytes. -/
def Board.sector (board : Board) : Nat := board.ops.flashSectorSize.toNat

/-- The board of main.c. -/
def at32Board : Board :=
  {
    ops := blTestFunc
    flashBase := FLASH_BASE
    packetRoom := by decide
    sectorPositive := by decide
    sectorEven := by decide
    baseAligned := by decide
    sectorCount := by decide
    flashRoom := by decide
    appInFlash := by decide
    belowApp := by decide
  }

/-- flash_erase of main.c, the erase callback. -/
def flashErase (c : Controller) (addr : UInt32) (f : Flash.State) : UInt8 × Flash.State :=
  let (status, f) := flashErasePage c addr f
  if status = .complete then (0, f) else (1, f)

/-- What a call does to the flash, with the callbacks of main.c. -/
def Call.onFlash (c : Controller) : Call → Flash.State → Flash.State
  | .blWriteMemory addr buf len, f => flashWritePageWord c addr buf len f
  | .blFlashEraseRegion addr, f => (flashErase c addr f).2
  | _, f => f

/-- What the calls of a run do to the flash, in order. -/
def flashAfter (c : Controller) (calls : List Call) (f : Flash.State) : Flash.State :=
  calls.foldl (fun f call => call.onFlash c f) f

end At32.Bootloader
