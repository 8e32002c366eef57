import At32.Lib.NorFlash
import Mathlib.Algebra.Group.Nat.Defs

/-! The on-chip flash driver over a controller that is polled through its status register.
The flash is halfword cells, numbered by half their address, in pages of the controller's
page size.
-/

namespace At32.Flash

open NorFlash

abbrev TIMEOUT : Nat := 0x01000000
abbrev SECTOR_SIZE : UInt32 := 2048
abbrev BANK1 : UInt32 := 255
abbrev FLASH_SIZE : UInt32 := 0xFA000
abbrev FLASH_BASE : UInt32 := 0x08000000

abbrev FLASH_FLAG_BSY : UInt32 := 1
abbrev FLASH_FLAG_PRGMFLR : UInt32 := 0x0004
abbrev FLASH_FLAG_WRPRTFLR : UInt32 := 0x0010

/-- What an erased halfword reads as. -/
abbrev blank : UInt16 := 0xFFFF

inductive FlashStatus
  | bsy
  | prgmflr
  | wrprtflr
  | complete
  | timeout
  deriving DecidableEq, Repr

/-- The controller: its page size in bytes, and what each read of its status register
returns, counted from power-on.
-/
structure Controller where
  page : Nat
  sts : Nat → UInt32

/-- The flash and how often its status register has been read. -/
structure State where
  memory : Memory UInt16
  polls : Nat

/-- One read of the status register. -/
def State.poll (f : State) : State := { f with polls := f.polls + 1 }

variable (c : Controller)

/-- Each test reads the register again. -/
def flashGetStatus (f : State) : FlashStatus × State :=
  if c.sts f.polls &&& FLASH_FLAG_BSY ≠ 0 then
    (.bsy, f.poll)
  else if c.sts (f.polls + 1) &&& FLASH_FLAG_PRGMFLR ≠ 0 then
    (.prgmflr, f.poll.poll)
  else if c.sts (f.polls + 2) &&& FLASH_FLAG_WRPRTFLR ≠ 0 then
    (.wrprtflr, f.poll.poll.poll)
  else
    (.complete, f.poll.poll.poll)

/-- The loop of Flash_WaitProcess, with the timeout that is left at its end. -/
def flashWaitLoop : Nat → FlashStatus → State → FlashStatus × Nat × State
  | 0, status, f => (status, 0, f)
  | timeout + 1, status, f =>
      if status = .bsy then
        let (status, f) := flashGetStatus c f
        flashWaitLoop timeout status f
      else
        (status, timeout + 1, f)

def flashWaitProcess (timeout : Nat) (f : State) : FlashStatus × State :=
  let (status, f) := flashGetStatus c f
  let (status, timeout, f) := flashWaitLoop c timeout status f
  if timeout = 0 then (.timeout, f) else (status, f)

/-- The controller erases the page that holds the address. -/
def flashErasePage (addr : UInt32) (f : State) : FlashStatus × State :=
  let (status, f) := flashWaitProcess c TIMEOUT f
  if status = .complete then
    let f :=
      { f with memory := f.memory.erasePage blank (c.page / 2) (addr.toNat / c.page) }
    flashWaitProcess c TIMEOUT f
  else
    (status, f)

def flashWriteHalfWord (addr : UInt32) (data : UInt16) (f : State) : FlashStatus × State :=
  let (status, f) := flashWaitProcess c TIMEOUT f
  if status = .complete then
    let f := { f with memory := f.memory.program blank (addr.toNat / 2) data }
    flashWaitProcess c TIMEOUT f
  else
    (status, f)

/-- The loop of Flash_WritePageWord over the halfwords it writes. -/
def flashWriteHalfWords : UInt32 → List UInt16 → State → State
  | _, [], f => f
  | addr, data :: rest, f =>
      flashWriteHalfWords (addr + 2) rest (flashWriteHalfWord c addr data f).2

def flashWritePageWord (addr : UInt32) (buf : List UInt16) (len : UInt16) (f : State) : State :=
  flashWriteHalfWords c addr (buf.take len.toNat) f

def flashReadHalfWord (addr : UInt32) (f : State) : UInt16 :=
  f.memory.cells (addr.toNat / 2)

/-- The loop of flash_read over the number of halfwords. -/
def flashReadHalfWords (f : State) : UInt32 → Nat → List UInt16
  | _, 0 => []
  | addr, count + 1 => flashReadHalfWord addr f :: flashReadHalfWords f (addr + 2) count

def flashRead (addr : UInt32) (len : UInt16) (f : State) : List UInt16 :=
  flashReadHalfWords f addr len.toNat

/-- Every wait for the controller ends with the operation complete, so each erase and each
program succeeds.
-/
def Controller.Ready : Prop := ∀ f, (flashWaitProcess c TIMEOUT f).1 = .complete

theorem flashGetStatus_memory (f : State) : (flashGetStatus c f).2.memory = f.memory := by
  unfold flashGetStatus
  split
  · rfl
  · split
    · rfl
    · split <;> rfl

theorem flashWaitLoop_memory (timeout : Nat) (status : FlashStatus) (f : State)
    : (flashWaitLoop c timeout status f).2.2.memory = f.memory := by
  induction timeout generalizing status f with
  | zero => rfl
  | succ timeout ih =>
      rw [flashWaitLoop]
      split
      · rw [ih, flashGetStatus_memory]
      · rfl

/-- Waiting only reads the status register. -/
theorem flashWaitProcess_memory (timeout : Nat) (f : State)
    : (flashWaitProcess c timeout f).2.memory = f.memory := by
  unfold flashWaitProcess
  have waited := flashWaitLoop_memory c timeout (flashGetStatus c f).1 (flashGetStatus c f).2
  rw [flashGetStatus_memory] at waited
  simp only
  split <;> exact waited

/-- A status other than busy ends the wait at once. -/
theorem flashWaitLoop_done (timeout : Nat) {status : FlashStatus} (done : status ≠ .bsy)
    (f : State)
    : flashWaitLoop c timeout status f = (status, timeout, f) := by
  cases timeout with
  | zero => rfl
  | succ timeout => rw [flashWaitLoop, if_neg done]

/-- A controller that never reports busy or a fault is ready. -/
theorem Controller.ready_of_idle (idle : ∀ read, c.sts read = 0) : c.Ready := by
  intro f
  simp [flashWaitProcess, flashGetStatus, idle, flashWaitLoop_done]

/-- An erase fails on a controller that always reports a protected page. -/
theorem flashErasePage_protected (locked : ∀ read, c.sts read = FLASH_FLAG_WRPRTFLR)
    (addr : UInt32) (f : State)
    : (flashErasePage c addr f).1 = .wrprtflr := by
  have status : flashGetStatus c f = (.wrprtflr, f.poll.poll.poll) := by
    rw [flashGetStatus, locked, locked, locked]
    rfl
  have waited : flashWaitProcess c TIMEOUT f = (.wrprtflr, f.poll.poll.poll) := by
    simp only [flashWaitProcess, status]
    rw [flashWaitLoop_done c TIMEOUT (by decide)]
    rfl
  simp only [flashErasePage, waited]
  rfl

/-- The next halfword address, short of the end of the address space. -/
theorem addr_next (addr : UInt32) (below : addr.toNat + 2 < 2 ^ 32)
    : (addr + 2).toNat = addr.toNat + 2 := by
  rw [UInt32.toNat_add]
  exact Nat.mod_eq_of_lt below

variable {c} (ready : c.Ready)
include ready

theorem flashErasePage_memory (addr : UInt32) (f : State)
    : (flashErasePage c addr f).2.memory
      = f.memory.erasePage blank (c.page / 2) (addr.toNat / c.page) := by
  simp only [flashErasePage, ready f, if_true, flashWaitProcess_memory]

theorem flashWriteHalfWord_memory (addr : UInt32) (data : UInt16) (f : State)
    : (flashWriteHalfWord c addr data f).2.memory
      = f.memory.program blank (addr.toNat / 2) data := by
  simp only [flashWriteHalfWord, ready f, if_true, flashWaitProcess_memory]

/-- Writing halfwords that end inside the address space programs consecutive cells. -/
theorem flashWriteHalfWords_memory (addr : UInt32) (data : List UInt16) (f : State)
    (fits : addr.toNat + 2 * data.length ≤ 2 ^ 32)
    : (flashWriteHalfWords c addr data f).memory
      = f.memory.programAll blank (addr.toNat / 2) data := by
  induction data generalizing addr f with
  | nil => rfl
  | cons value rest ih =>
      simp only [List.length_cons] at fits
      rw [flashWriteHalfWords, Memory.programAll]
      cases rest with
      | nil => exact flashWriteHalfWord_memory ready addr value f
      | cons second rest =>
          simp only [List.length_cons] at fits
          have next := addr_next addr (by omega)
          rw [ih (addr + 2) _ (by simp only [next, List.length_cons]; omega),
            flashWriteHalfWord_memory ready, next]
          congr 1
          omega

omit ready in
/-- Reading halfwords that end inside the address space lists consecutive cells. -/
theorem flashReadHalfWords_eq (addr : UInt32) (count : Nat) (f : State)
    (fits : addr.toNat + 2 * count ≤ 2 ^ 32)
    : flashReadHalfWords f addr count
      = (List.range count).map fun index => f.memory.cells (addr.toNat / 2 + index) := by
  induction count generalizing addr with
  | zero => rfl
  | succ count ih =>
      rw [flashReadHalfWords, List.range_succ_eq_map, List.map_cons, List.map_map]
      cases count with
      | zero => rfl
      | succ count =>
          have next := addr_next addr (by omega)
          rw [ih (addr + 2) (by omega), next]
          congr 1
          apply List.map_congr_left
          intro index _
          simp only [Function.comp]
          congr 1
          omega

end At32.Flash
