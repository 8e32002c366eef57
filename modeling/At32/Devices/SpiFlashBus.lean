import At32.Devices.SpiFlashPower
import At32.Lib.Carrier

/-! The flash on the SPI of the board: SPI_TransferData and the select pin under the driver, and
that sessions of the driver have there the answers that they have on the chip itself.
-/

namespace At32.SpiFlash

open Port SerialFlash Transducer

/-- The time that SPI_TransferData gives to a transfer, in readings of the status. -/
abbrev TIME : Nat := 0x10000

/-- The SPI with a device behind it: how many readings of the status still show BSY, what DT
reads as, the byte that replaces it when BSY goes, and how many transfers have begun.
-/
structure Bus (σ : Type) where
  busy : Nat
  dt : UInt8
  arriving : UInt8
  begun : Nat
  device : σ

section Transfer

variable {σ : Type} (device : Device Action UInt8 σ) (pace : Nat → Nat)

/-- SPI_GetFlagStatus for SPI_STS_BSY. -/
def spiGetFlagStatus (s : Bus σ) : Bool × Bus σ :=
  if s.busy = 0 then (false, s)
  else
    (true, { s with busy := s.busy - 1, dt := if s.busy = 1 then s.arriving else s.dt })

/-- The waiting loops of SPI_TransferData, by recursion on the time that is left. -/
def waitIdle : (time : Nat) → Bus σ → Bus σ
  | 0, s => (spiGetFlagStatus s).2
  | time + 1, s =>
      let (flag, s) := spiGetFlagStatus s
      if flag then waitIdle time s else s

/-- SPI_SendData. The transfer takes as many readings as (pace) says; what becomes of a byte that
is written before the one in transfer is over is open.
-/
def spiSendData (data : UInt8) (s : Bus σ) : Option (Bus σ) :=
  if s.busy = 0 then
    let chip := device.apply s.device (.transfer data)
    some
      {
        busy := pace s.begun
        dt := if pace s.begun = 0 then device.look chip else s.dt
        arriving := device.look chip
        begun := s.begun + 1
        device := chip
      }
  else
    none

/-- SPI_ReceiveData -/
def spiReceiveData (s : Bus σ) : UInt8 := s.dt

/-- SPI_TransferData -/
def spiTransferData (data : UInt8) (s : Bus σ) : Option (UInt8 × Bus σ) := do
  let s := waitIdle TIME s
  let s ← spiSendData device pace data s
  let s := waitIdle TIME s
  return (spiReceiveData s, s)

/-- ctl_cs -/
def ctlCs (level : Bool) (s : Bus σ) : Bus σ :=
  { s with device := device.apply s.device (.select level) }

/-- The functions of spi_flash_ops. -/
def spiFlashOps : Carrier Action UInt8 (Bus σ)
  | s, .select level => some (none, ctlCs device level s)
  | s, .transfer data => (spiTransferData device pace data s).map fun (byte, s) => (some byte, s)

end Transfer

/-- A call of the driver on the board. -/
def Call.serveOver (part : Part) (pace : Nat → Nat) (deviceId : UInt16) (s : Bus Powered)
    (call : Call)
    : Except Unit (Bus Powered × List Reply) :=
  match (call.program deviceId).runOver (spiFlashOps (powered part) pace) none s with
  | none => .error ()
  | some (replies, s) => .ok (s, replies)

-----------------------------------------------------------------------------------------
-- Transfers
-----------------------------------------------------------------------------------------

variable {σ : Type} {device : Device Action UInt8 σ} {pace : Nat → Nat}

/-- The loop waits to the end of a transfer that is over in time; by induction on the time. -/
theorem waitIdle_ends {time : Nat} {s : Bus σ} (inTime : s.busy ≤ time)
    : waitIdle time s
      = { s with busy := 0, dt := if s.busy = 0 then s.dt else s.arriving } := by
  induction time generalizing s with
  | zero =>
      have idle : s.busy = 0 := Nat.le_zero.mp inTime
      obtain ⟨busy, dt, arriving, begun, device⟩ := s
      obtain rfl : busy = 0 := idle
      rfl
  | succ time ih =>
      obtain ⟨busy, dt, arriving, begun, device⟩ := s
      cases busy with
      | zero => rfl
      | succ busy =>
          have rest := @ih ⟨busy, if busy + 1 = 1 then arriving else dt, arriving, begun, device⟩
            (Nat.le_of_succ_le_succ inTime)
          have taken : waitIdle (time + 1) ⟨busy + 1, dt, arriving, begun, device⟩
              = waitIdle time
                  ⟨busy, if busy + 1 = 1 then arriving else dt, arriving, begun, device⟩ := rfl
          rw [taken, rest]
          cases busy <;> simp

/-- A transfer that is over in time gives the byte that the device shifts out. -/
theorem spiTransferData_eq (inTime : ∀ n, pace n ≤ TIME) {s : Bus σ} (idle : s.busy = 0)
    (data : UInt8)
    : ∃ t,
        spiTransferData device pace data s
          = some (device.look (device.apply s.device (.transfer data)), t)
        ∧ t.busy = 0
        ∧ t.device = device.apply s.device (.transfer data) := by
  let chip := device.apply s.device (.transfer data)
  let started : Bus σ :=
    {
      busy := pace s.begun
      dt := if pace s.begun = 0 then device.look chip else s.dt
      arriving := device.look chip
      begun := s.begun + 1
      device := chip
    }
  have before : waitIdle TIME s = s := by
    rw [waitIdle_ends (by rw [idle]; exact Nat.zero_le _), if_pos idle, ← idle]
  have sent : spiSendData device pace data s = some started := if_pos idle
  have ended := waitIdle_ends (s := started) (inTime s.begun)
  have shown : (if started.busy = 0 then started.dt else started.arriving) = device.look chip := by
    by_cases fast : pace s.begun = 0 <;> simp [started, fast]
  rw [shown] at ended
  refine ⟨{ started with busy := 0, dt := device.look chip }, ?_, rfl, rfl⟩
  simp only [spiTransferData, before, sent, Option.bind_eq_bind, Option.bind_some, ended]
  rfl

-----------------------------------------------------------------------------------------
-- The driver over the board
-----------------------------------------------------------------------------------------

/-- A transfer brings a byte, the select pin none. -/
def Brings : Action → Prop
  | .select _ => False
  | .transfer _ => True

/-- The functions of spi_flash_ops carry every action to the chip. -/
theorem spiFlashOps_carries (inTime : ∀ n, pace n ≤ TIME)
    : Carries (spiFlashOps device pace) device Brings (fun s => s.busy = 0) Bus.device := by
  intro s action idle
  cases action with
  | select level => exact ⟨none, ctlCs device level s, rfl, idle, rfl, False.elim⟩
  | transfer data =>
      obtain ⟨t, sent, done, same⟩ := @spiTransferData_eq σ device pace inTime s idle data
      refine ⟨some (device.look (device.apply s.device (.transfer data))), t, ?_, done, same,
        fun _ => by rw [same]⟩
      simp only [spiFlashOps, sent, Option.map_some]

theorem exchanging_cs (status : UInt8) : Exchanging Brings (cs status) := .act (.done ())

theorem exchanging_xferData (data : UInt8) : Exchanging Brings (xferData data) :=
  .exchange trivial .done

/-- Programs of whole commands read only what a transfer brings; by induction on the program. -/
theorem exchanging_framed {ρ : Type} {stage last : Stage} {program : Spi ρ}
    (framed : Framed last stage program)
    : Exchanging Brings program := by
  induction framed with
  | done result => exact .done result
  | select _ ih => exact .act ih
  | first _ _ ih => exact .exchange trivial ih
  | later _ ih => exact .exchange trivial ih
  | deselect _ ih => exact .act ih

theorem exchanging_activeMode : Exchanging Brings spiFlashActiveMode :=
  (exchanging_cs 0).bind fun _ => (exchanging_xferData _).bind fun _ => exchanging_cs 1

theorem exchanging_open (deviceId : UInt16) : Exchanging Brings (spiFlashOpen deviceId) :=
  exchanging_activeMode.bind fun _ => (exchanging_cs 0).bind fun _ =>
    (exchanging_xferData _).bind fun _ => (exchanging_xferData _).bind fun _ =>
      (exchanging_xferData _).bind fun _ => (exchanging_xferData _).bind fun _ =>
        (exchanging_xferData _).bind fun _ => (exchanging_xferData _).bind fun _ =>
          (exchanging_cs 1).bind fun _ => .done _

theorem exchanging_close : Exchanging Brings spiFlashClose :=
  Exchanging.bind ((exchanging_cs 0).bind fun _ =>
      (exchanging_xferData _).bind fun _ => exchanging_cs 1)
    fun _ => (exchanging_cs 0).bind fun _ =>
      (exchanging_xferData _).bind fun _ => exchanging_cs 1

/-- So does every call of the driver, by cases on the call. -/
theorem Call.exchanging (deviceId : UInt16) (call : Call)
    : Exchanging Brings (call.program deviceId) := by
  cases call with
  | spiFlashOpen => exact (exchanging_open deviceId).bind fun _ => .done _
  | spiFlashClose => exact exchanging_close.bind fun _ => .done _
  | spiFlashRead addr len =>
      exact (exchanging_framed (framed_read addr len)).bind fun _ => .done _
  | spiFlashWrite addr buf len =>
      exact (exchanging_framed (framed_write addr buf len)).bind fun _ => .done _
  | spiFlashErase addr =>
      exact (exchanging_framed (framed_erase addr)).bind fun _ => .done _

/-- A call on the board has the answer that it has on the chip, and leaves the chip alike. -/
theorem Call.serveOver_eq (inTime : ∀ n, pace n ≤ TIME) (part : Part) (deviceId : UInt16)
    {s : Bus Powered} (idle : s.busy = 0) (call : Call)
    : ∃ t replies,
        Call.serveOver part pace deviceId s call = .ok (t, replies)
        ∧ t.busy = 0
        ∧ Call.serve part deviceId s.device call = .ok (t.device, replies) := by
  have carries := @spiFlashOps_carries _ (powered part) pace inTime
  obtain ⟨t, ran, done, same⟩ := (call.exchanging deviceId).runOver carries none idle
  refine ⟨t, ((call.program deviceId).run (powered part) s.device).1, ?_, done, ?_⟩
  · rw [Call.serveOver, ran]
  · rw [Call.serve, same]

/-- Where every transfer is over in time, every session of the driver runs to its end on the board:
SPI_TransferData never writes into a transfer, each call has the answer that it has on the chip
itself, and the chip is left alike; by induction on the calls.
-/
theorem spiFlash_overBus (part : Part) (pace : Nat → Nat) (inTime : ∀ n, pace n ≤ TIME)
    (deviceId : UInt16) (s : Bus Powered) (idle : s.busy = 0) (calls : List Call)
    : ∃ t answers,
        trace (Call.serveOver part pace deviceId) s calls = .ok (t, answers)
        ∧ t.busy = 0
        ∧ trace (Call.serve part deviceId) s.device calls = .ok (t.device, answers) := by
  induction calls generalizing s with
  | nil => exact ⟨s, [], rfl, idle, rfl⟩
  | cons call calls ih =>
      obtain ⟨middle, replies, served, idle, same⟩ :=
        Call.serveOver_eq inTime part deviceId idle call
      obtain ⟨t, answers, rest, done, alike⟩ := ih middle idle
      exact ⟨t, replies :: answers, trace_cons_iff.mpr ⟨_, _, _, served, rest, rfl⟩, done,
        trace_cons_iff.mpr ⟨_, _, _, same, alike, rfl⟩⟩

/-- The calls of a session in which every other transfer shows BSY three times. -/
theorem spiFlash_overBus_sleeping
    : ∃ t answers,
        trace (Call.serveOver en25q (fun n => 3 * (n % 2)) 0) ⟨0, 0, 0, 0, ⟨erasedChip, true⟩⟩
            sleepingCalls
          = .ok (t, answers)
        ∧ t.busy = 0
        ∧ trace (Call.serve en25q 0) ⟨erasedChip, true⟩ sleepingCalls = .ok (t.device, answers) :=
  spiFlash_overBus en25q (fun n => 3 * (n % 2))
    (fun n => Nat.le_trans (Nat.mul_le_mul_left 3 (Nat.le_of_lt (Nat.mod_lt n (by decide))))
      (by decide))
    0 ⟨0, 0, 0, 0, ⟨erasedChip, true⟩⟩ rfl sleepingCalls

end At32.SpiFlash
