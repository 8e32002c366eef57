import At32.Devices.SpiFlash
import At32.Lib.CellStore
import At32.Lib.SleepingFlash

/-! spi_flash_open and spi_flash_close, which wake the flash and send it to sleep, and the
driver over whole sessions: what is stored awake stays, and asleep nothing is taken.
-/

namespace At32.SpiFlash

open CellStore CellWalk Port SerialFlash Transducer

abbrev READ_DEVICE_ID : UInt8 := 0x90
abbrev FLASH_RELEASE_SLEEP : UInt8 := 0xAB
abbrev FLASH_DEEP_POWER : UInt8 := 0xB9
abbrev FLASH_WRITE_DISABLE : UInt8 := 0x04

/-- spi_flash_active_mode -/
def spiFlashActiveMode : Spi Unit := do
  cs 0
  let _ ← xferData FLASH_RELEASE_SLEEP
  cs 1

/-- spi_flash_open, from what its variable holds, which is never initialised. -/
def spiFlashOpen (deviceId : UInt16) : Spi UInt16 := do
  spiFlashActiveMode
  cs 0
  let _ ← xferData READ_DEVICE_ID
  let _ ← xferData 0x00
  let _ ← xferData 0x00
  let _ ← xferData 0x00
  let byte ← xferData SEND_DEFAULT_VALUE
  let deviceId := deviceId ||| byte.toUInt16 <<< 8
  let byte ← xferData SEND_DEFAULT_VALUE
  let deviceId := deviceId ||| byte.toUInt16
  cs 1
  return deviceId

/-- spi_flash_write_disable -/
def spiFlashWriteDisable : Spi Unit := do
  cs 0
  let _ ← xferData FLASH_WRITE_DISABLE
  cs 1

/-- spi_flash_close -/
def spiFlashClose : Spi Unit := do
  spiFlashWriteDisable
  cs 0
  let _ ← xferData FLASH_DEEP_POWER
  cs 1

-----------------------------------------------------------------------------------------
-- Programs that send whole commands
-----------------------------------------------------------------------------------------

theorem framed_select : Framed .begun .between (cs 0) := .select (.done ())

theorem framed_first {data : UInt8} (plain : Plain data)
    : Framed .amid .begun (xferData data) :=
  .first plain .done

theorem framed_later (data : UInt8) : Framed .amid .amid (xferData data) := .later .done

theorem framed_deselect : Framed .between .amid (cs 1) := .deselect (.done ())

theorem framed_writeEnable : Framed .between .between spiFlashWriteEnable := by
  refine framed_select.bind fun _ => ?_
  exact (framed_first (by decide)).bind fun _ => framed_deselect

theorem framed_readRegister : Framed .between .between spiFlashReadRegister := by
  refine framed_select.bind fun _ => ?_
  refine (framed_first (by decide)).bind fun _ => ?_
  refine (framed_later _).bind fun status => ?_
  exact framed_deselect.bind fun _ => .done status

theorem framed_waitBusy (timeout : Nat)
    : Framed .between .between (spiFlashWaitBusy timeout) := by
  induction timeout with
  | zero => exact framed_readRegister.bind fun _ => .done ()
  | succ timeout ih =>
      refine framed_readRegister.bind fun status => ?_
      split
      · exact ih
      · exact .done ()

/-- The four bytes that begin a command on cells. -/
theorem framed_request {ρ : Type} {command : UInt8} (plain : Plain command) (addr : UInt32)
    {rest : Spi ρ} (tail : Framed .between .amid rest)
    : Framed .between .between
        (do
          cs 0
          let _ ← xferData command
          let _ ← xferData (addr >>> 16).toUInt8
          let _ ← xferData (addr >>> 8).toUInt8
          let _ ← xferData addr.toUInt8
          rest) := by
  refine framed_select.bind fun _ => ?_
  refine (framed_first plain).bind fun _ => ?_
  refine (framed_later _).bind fun _ => ?_
  refine (framed_later _).bind fun _ => ?_
  exact (framed_later _).bind fun _ => tail

theorem framed_erase (addr : UInt32) : Framed .between .between (spiFlashErase addr) := by
  refine framed_writeEnable.bind fun _ => ?_
  refine (framed_waitBusy _).bind fun _ => ?_
  refine framed_request (by decide) addr ?_
  exact framed_deselect.bind fun _ => framed_waitBusy _

theorem framed_readLoop (count : Nat) : Framed .amid .amid (readLoop count) := by
  induction count with
  | zero => exact .done []
  | succ count ih => exact (framed_later _).bind fun byte => ih.bind fun rest => .done _

theorem framed_read (addr len : UInt32) : Framed .between .between (spiFlashRead addr len) := by
  refine framed_request (by decide) addr ?_
  refine (framed_readLoop _).bind fun buf => ?_
  exact framed_deselect.bind fun _ => .done _

theorem framed_writeLoop (data : List UInt8) : Framed .amid .amid (writeLoop data) := by
  induction data with
  | nil => exact .done ()
  | cons byte rest ih => exact (framed_later byte).bind fun _ => ih

theorem framed_write (addr : UInt32) (buf : List UInt8) (len : UInt32)
    : Framed .between .between (spiFlashWrite addr buf len) := by
  refine (framed_erase _).bind fun _ => ?_
  refine framed_writeEnable.bind fun _ => ?_
  refine (framed_waitBusy _).bind fun _ => ?_
  refine framed_request (by decide) addr ?_
  refine (framed_writeLoop _).bind fun _ => ?_
  refine framed_deselect.bind fun _ => ?_
  exact (framed_waitBusy _).bind fun _ => .done _

-----------------------------------------------------------------------------------------
-- Waking and sleeping
-----------------------------------------------------------------------------------------

variable {part : Part}

/-- No command is under way and the chip is not busy. -/
structure Idle (s : Powered) : Prop where
  released : s.chip.selected = false
  ready : s.chip.busy = 0

/-- The release wakes the chip, and is nothing to one that is awake. -/
theorem spiFlashActiveMode_wakes {s : Powered} (idle : Idle s)
    : ∃ reply,
        (spiFlashActiveMode.run (powered part) s).2
          = ⟨{ s.chip with received := [], reply }, false⟩ := by
  obtain ⟨⟨cells, _, received, enabled, _, reply⟩, asleep⟩ := s
  obtain ⟨rfl, rfl⟩ := idle
  cases asleep <;> exact ⟨_, rfl⟩

/-- The identification joined to what was in a variable. -/
def identified (part : Part) (deviceId : UInt16) : UInt16 :=
  deviceId ||| part.manufacturer.toUInt16 <<< 8 ||| part.device.toUInt16

/-- Opening wakes the chip and returns its identification over what was in the variable. -/
theorem spiFlashOpen_wakes (deviceId : UInt16) {s : Powered} (idle : Idle s)
    : ((spiFlashOpen deviceId).run (powered part) s).1 = identified part deviceId
      ∧ ((spiFlashOpen deviceId).run (powered part) s).2.chip.cells = s.chip.cells
      ∧ ((spiFlashOpen deviceId).run (powered part) s).2.asleep = false
      ∧ Idle ((spiFlashOpen deviceId).run (powered part) s).2 := by
  obtain ⟨reply, awake⟩ := @spiFlashActiveMode_wakes part s idle
  rw [spiFlashOpen, Program.run_bind, awake]
  obtain ⟨⟨cells, _, received, enabled, _, before⟩, asleep⟩ := s
  obtain ⟨rfl, rfl⟩ := idle
  exact ⟨rfl, rfl, rfl, rfl, rfl⟩

/-- Closing sends the chip to sleep. -/
theorem spiFlashClose_sleeps {s : Powered} (idle : Idle s)
    : (spiFlashClose.run (powered part) s).2.chip.cells = s.chip.cells
      ∧ (spiFlashClose.run (powered part) s).2.asleep = true
      ∧ Idle (spiFlashClose.run (powered part) s).2 := by
  obtain ⟨⟨cells, _, received, enabled, _, reply⟩, asleep⟩ := s
  obtain ⟨rfl, rfl⟩ := idle
  cases asleep <;> exact ⟨rfl, rfl, rfl, rfl⟩

-----------------------------------------------------------------------------------------
-- Sessions
-----------------------------------------------------------------------------------------

/-- The calls of the driver. -/
inductive Call
  | spiFlashOpen
  | spiFlashClose
  | spiFlashRead (addr len : UInt32)
  | spiFlashWrite (addr : UInt32) (buf : List UInt8) (len : UInt32)
  | spiFlashErase (addr : UInt32)

/-- What a call returns. -/
inductive Reply
  | deviceId (id : UInt16)
  | read (buf : List UInt8) (size : UInt32)
  | written (len : UInt32)

/-- A call, which returns what it stores in the buffer of the caller too. -/
def Call.program (deviceId : UInt16) : Call → Spi (List Reply)
  | .spiFlashOpen => do
      let id ← SpiFlash.spiFlashOpen deviceId
      return [.deviceId id]
  | .spiFlashClose => do
      SpiFlash.spiFlashClose
      return []
  | .spiFlashRead addr len => do
      let (buf, size) ← SpiFlash.spiFlashRead addr len
      return [.read buf size]
  | .spiFlashWrite addr buf len => do
      let len ← SpiFlash.spiFlashWrite addr buf len
      return [.written len]
  | .spiFlashErase addr => do
      SpiFlash.spiFlashErase addr
      return []

/-- A call against the chip; (deviceId) is what the variable of spi_flash_open holds. -/
def Call.serve (part : Part) (deviceId : UInt16) (s : Powered) (call : Call)
    : Except Unit (Powered × List Reply) :=
  let (replies, s) := (call.program deviceId).run (powered part) s
  .ok (s, replies)

/-- A buffer holds as many bytes as are written. -/
def Call.Legal : Call → Prop
  | .spiFlashWrite _ buf len => len.toNat ≤ buf.length
  | _ => True

/-- What a write leaves in a cell: the whole sector is erased, and the bytes wrap around in
their page.
-/
def leftByWrite (cell : Nat) (data : List UInt8) : Nat → Option UInt8 :=
  fun other =>
    if other / 4096 = cell / 4096 then
      some ((leaves nextInPage cell data other).getD 0xFF)
    else
      none

/-- What a call is to a store of cells: asleep the chip stores nothing, the driver reports every
write as done all the same, and reads show the line.
-/
def Call.meaning (part : Part) (deviceId : UInt16) (asleep : Bool)
    : Call → Request Nat UInt8 Reply
  | .spiFlashOpen =>
      { stored := fun _ => none, answer := fun _ => [.deviceId (identified part deviceId)] }
  | .spiFlashClose => { stored := fun _ => none, answer := fun _ => [] }
  | .spiFlashRead addr len =>
      {
        stored := fun _ => none
        answer := fun cells =>
          [.read
            (if asleep then List.replicate len.toNat part.floating
              else readAll nextCell cells (cellOf addr) len.toNat) 4]
      }
  | .spiFlashWrite addr buf len =>
      {
        stored :=
          if asleep then fun _ => none
          else leftByWrite (cellOf addr) (buf.take (pageLen len).toNat)
        answer := fun _ => [.written (pageLen len)]
      }
  | .spiFlashErase addr =>
      {
        stored := if asleep then fun _ => none else leftByWrite (cellOf addr) []
        answer := fun _ => []
      }

/-- Opening wakes the chip and closing sends it to sleep. -/
def Call.shift (asleep : Bool) : Call → Bool
  | .spiFlashOpen => false
  | .spiFlashClose => true
  | _ => asleep

/-- A page program behind the erase of its sector, cell by cell. -/
theorem programPage_leaves (cells : Nat → UInt8) (cell : Nat) {data : List UInt8}
    (page : data.length ≤ 256)
    : programPage (eraseSector cells cell) cell data
      = fun other => (leftByWrite cell data other).getD (cells other) := by
  have fresh := nextInPage_fresh cell page
  funext other
  have walked : (leaves nextInPage cell data other).getD 0xFF
      = storeAll nextInPage (fun _ byte => byte) (fun _ => 0xFF) cell data other := by
    rw [storeAll_eq_leaves]
  unfold leftByWrite
  split
  · rename_i sector
    rw [Option.getD_some, walked]
    by_cases reached : ∃ k < data.length, nextInPage^[k] cell = other
    · obtain ⟨k, sent, rfl⟩ := reached
      rw [programPage_blank page (List.getElem?_eq_getElem sent) (if_pos sector),
        storeAll_at fresh (List.getElem?_eq_getElem sent)]
    · push Not at reached
      rw [programPage, storeAll_outside reached, storeAll_outside reached]
      exact if_pos sector
  · rename_i sector
    rw [programPage_outside fun samePage => sector (by omega), Option.getD_none]
    exact if_neg sector

theorem eraseSector_leaves (cells : Nat → UInt8) (cell : Nat)
    : eraseSector cells cell = fun other => (leftByWrite cell [] other).getD (cells other) :=
  @programPage_leaves cells cell [] (Nat.zero_le _)

/-- Awake, what a program of plain commands does to the chip it does to the whole. -/
theorem Idle.run_awake {ρ : Type} {s : Powered} (idle : Idle s) (awake : s.asleep = false)
    {program : Spi ρ} (framed : Framed .between .between program) {post : ρ → Chip → Prop}
    (spec : Spec part.timing (Between s.chip.cells s.chip.enabled 0) program post)
    : ∃ result chip,
        program.run (powered part) s = (result, ⟨chip, false⟩) ∧ post result chip := by
  obtain ⟨chip, asleep⟩ := s
  obtain rfl : asleep = false := awake
  have start : Between chip.cells chip.enabled 0 chip :=
    { cells := rfl, selected := idle.released, enabled := rfl, busy := idle.ready }
  exact ⟨_, _, framed.run_awake idle.released, spec.holds start⟩

/-- Asleep, it changes nothing and reads the line. -/
theorem Idle.run_asleep {ρ : Type} {s : Powered} (idle : Idle s) (asleep : s.asleep = true)
    {program : Spi ρ} (framed : Framed .between .between program)
    : (program.run (powered part) s).1 = resultWith part.floating program
      ∧ (program.run (powered part) s).2.chip.cells = s.chip.cells
      ∧ (program.run (powered part) s).2.asleep = true
      ∧ Idle (program.run (powered part) s).2 := by
  have start : Asleep s.chip.cells s.chip.enabled s :=
    { asleep := asleep, cells := rfl, enabled := rfl, idle := idle.ready }
  obtain ⟨result, after, released⟩ := framed.run_asleep part start idle.released
  exact ⟨result, after.cells, after.asleep, released, after.idle⟩

/-- A line that nobody drives is read as so many bytes. -/
theorem readLoop_floating (reading : UInt8) (count : Nat)
    : resultWith reading (readLoop count) = List.replicate count reading := by
  induction count with
  | zero => rfl
  | succ count ih =>
      rw [readLoop, resultWith_bind, resultWith_bind, ih]
      rfl

theorem spiFlashRead_floating (reading : UInt8) (addr len : UInt32)
    : resultWith reading (spiFlashRead addr len) = (List.replicate len.toNat reading, 4) := by
  simp only [spiFlashRead, resultWith_bind, readLoop_floating]
  rfl

theorem spiFlashWrite_floating (reading : UInt8) (addr : UInt32) (buf : List UInt8)
    (len : UInt32)
    : resultWith reading (spiFlashWrite addr buf len) = pageLen len := by
  simp only [spiFlashWrite, resultWith_bind]
  rfl

/-- The driver serves its calls as a store of cells does that can be asleep. -/
theorem call_serves (inTime : InTime part.timing) (deviceId : UInt16)
    : ModalServes (Call.serve part deviceId) Idle Call.Legal (Call.meaning part deviceId)
        Call.shift Powered.asleep (fun s => s.chip.cells) where
  served s call idle legal := by
    cases call with
    | spiFlashOpen =>
        obtain ⟨id, cells, awake, after⟩ := @spiFlashOpen_wakes part deviceId s idle
        refine ⟨((spiFlashOpen deviceId).run (powered part) s).2, ?_, after, awake, cells⟩
        simp only [Call.serve, Call.program, Program.run_bind, id]
        rfl
    | spiFlashClose =>
        obtain ⟨cells, asleep, after⟩ := @spiFlashClose_sleeps part s idle
        exact ⟨(spiFlashClose.run (powered part) s).2, rfl, after, asleep, cells⟩
    | spiFlashRead addr len =>
        have framed := framed_read addr len
        cases power : s.asleep with
        | false =>
            obtain ⟨_, chip, ran, rfl, here⟩ := @Idle.run_awake part _ s idle power _ framed _
              (spiFlashRead_spec addr len)
            refine ⟨⟨chip, false⟩, ?_, ⟨here.selected, here.busy⟩, rfl, here.cells⟩
            simp only [Call.serve, Call.program, Program.run_bind, ran]
            rfl
        | true =>
            obtain ⟨result, cells, asleep, after⟩ := @Idle.run_asleep part _ s idle power _ framed
            rw [spiFlashRead_floating] at result
            refine ⟨_, ?_, after, asleep, cells⟩
            simp only [Call.serve, Call.program, Program.run_bind, result]
            rfl
    | spiFlashWrite addr buf len =>
        have framed := framed_write addr buf len
        cases power : s.asleep with
        | false =>
            obtain ⟨_, chip, ran, rfl, latch, here⟩ := idle.run_awake power framed
              (spiFlashWrite_spec inTime addr buf len)
            have page : (buf.take (pageLen len).toNat).length ≤ 256 := by
              rw [List.length_take, pageLen_toNat]
              exact Nat.le_trans (Nat.min_le_left _ _) (Nat.min_le_right _ _)
            refine ⟨⟨chip, false⟩, ?_, ⟨here.selected, here.busy⟩, rfl, ?_⟩
            · simp only [Call.serve, Call.program, Program.run_bind, ran]
              rfl
            · exact here.cells.trans (programPage_leaves _ _ page)
        | true =>
            obtain ⟨result, cells, asleep, after⟩ := @Idle.run_asleep part _ s idle power _ framed
            rw [spiFlashWrite_floating] at result
            refine ⟨_, ?_, after, asleep, cells⟩
            simp only [Call.serve, Call.program, Program.run_bind, result]
            rfl
    | spiFlashErase addr =>
        have framed := framed_erase addr
        cases power : s.asleep with
        | false =>
            obtain ⟨_, chip, ran, here⟩ := idle.run_awake power framed
              (spiFlashErase_spec inTime addr)
            refine ⟨⟨chip, false⟩, ?_, ⟨here.selected, here.busy⟩, rfl, ?_⟩
            · simp only [Call.serve, Call.program, Program.run_bind, ran]
              rfl
            · exact here.cells.trans (eraseSector_leaves _ _)
        | true =>
            obtain ⟨_, cells, asleep, after⟩ := @Idle.run_asleep part _ s idle power _ framed
            refine ⟨_, ?_, after, asleep, cells⟩
            simp only [Call.serve, Call.program, Program.run_bind]
            rfl

/-- In every session of the driver with the chip: a read awake shows what was stored last while
awake, whatever openings and closings came between; a read asleep shows the line; a write
asleep stores nothing and is reported like any other; the chip is left awake or asleep by the
last opening or closing, and holds what was stored last.
-/
theorem spiFlash_session (inTime : InTime part.timing) (deviceId : UInt16) {s : Powered}
    (idle : Idle s) (calls : List Call) (legal : ∀ call ∈ calls, call.Legal)
    : ∃ t answers,
        trace (Call.serve part deviceId) s calls = .ok (t, answers)
        ∧ Idle t
        ∧ t.asleep = calls.foldl Call.shift s.asleep
        ∧ t.chip.cells
          = found s.chip.cells (requests (Call.meaning part deviceId) Call.shift s.asleep calls)
        ∧ (∀ before addr len later,
          calls = before ++ .spiFlashRead addr len :: later
          → answers[before.length]?
            = some
                [.read
                  (if before.foldl Call.shift s.asleep then
                    List.replicate len.toNat part.floating
                  else
                    readAll nextCell
                      (found s.chip.cells
                        (requests (Call.meaning part deviceId) Call.shift s.asleep before))
                      (cellOf addr) len.toNat) 4])
        ∧ ∀ before addr buf len later,
          calls = before ++ .spiFlashWrite addr buf len :: later
          → answers[before.length]? = some [.written (pageLen len)] := by
  obtain ⟨t, answers, served, done, power, cells, answered⟩ :=
    (call_serves inTime deviceId).session idle legal
  exact ⟨t, answers, served, done, power, cells,
    fun before addr len later split => answered before _ later split,
    fun before addr buf len later split => answered before _ later split⟩

/-- Two bytes are written and read around a sleep, in which another write is lost. -/
def sleepingCalls : List Call :=
  [.spiFlashOpen, .spiFlashWrite 0x001000 [0x68, 0x65] 2, .spiFlashClose,
    .spiFlashWrite 0x001000 [0x12, 0x34] 2, .spiFlashOpen, .spiFlashRead 0x001000 2]

/-- An EN25Q chip. -/
def en25q : Part := { timing := fewReadings, manufacturer := 0x1C, device := 0x16, floating := 0xFF }

theorem spiFlash_session_sleeping
    : ∃ t answers,
        trace (Call.serve en25q 0) ⟨erasedChip, true⟩ sleepingCalls = .ok (t, answers)
        ∧ Idle t
        ∧ t.asleep = sleepingCalls.foldl Call.shift true
        ∧ t.chip.cells
          = found erasedChip.cells
              (requests (Call.meaning en25q 0) Call.shift true sleepingCalls)
        ∧ (∀ before addr len later,
          sleepingCalls = before ++ .spiFlashRead addr len :: later
          → answers[before.length]?
            = some
                [.read
                  (if before.foldl Call.shift true then
                    List.replicate len.toNat en25q.floating
                  else
                    readAll nextCell
                      (found erasedChip.cells
                        (requests (Call.meaning en25q 0) Call.shift true before))
                      (cellOf addr) len.toNat) 4])
        ∧ ∀ before addr buf len later,
          sleepingCalls = before ++ .spiFlashWrite addr buf len :: later
          → answers[before.length]? = some [.written (pageLen len)] :=
  @spiFlash_session en25q { erase := by decide, program := by decide } 0 ⟨erasedChip, true⟩
    ⟨rfl, rfl⟩ sleepingCalls (by simp [sleepingCalls, Call.Legal])

end At32.SpiFlash
