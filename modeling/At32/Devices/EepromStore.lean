import At32.Devices.EepromBlock
import At32.Lib.CellStore

/-! The calls of the EEPROM driver over whole sessions: 256 cells, read as they were written
last, down to the levels of the two lines.
-/

namespace At32.At24c02

open CellStore I2c Transducer

/-- The calls of the driver. -/
inductive StoreCall
  | at24cxxWrite (addr bufnum : UInt32) (buf : Vector UInt8 bufnum.toNat)
  | at24cxxRead (addr bufnum : UInt32)
  | at24cxxCheck

variable {σ : Type}

/-- One call, with as many passes as a block within reach of the counter needs. -/
def StoreCall.serve (dev : ByteDevice σ) (s : σ) : StoreCall → Except Unit (σ × List UInt8)
  | .at24cxxWrite addr bufnum buf =>
      match At24c02.at24cxxWrite dev 256 addr buf bufnum s with
      | none => .error ()
      | some t => .ok (t, [])
  | .at24cxxRead addr bufnum =>
      match At24c02.at24cxxRead dev 256 addr (Vector.replicate bufnum.toNat 0) bufnum s with
      | none => .error ()
      | some (_, buf, t) => .ok (t, buf.toList)
  | .at24cxxCheck =>
      match At24c02.at24cxxCheck dev 256 s with
      | none => .error ()
      | some (answer, t) => .ok (t, [answer])

/-- A block is within reach of the counter of the loops. -/
def StoreCall.Short : StoreCall → Prop
  | .at24cxxWrite _ bufnum _ => bufnum ≤ 255
  | .at24cxxRead _ bufnum => bufnum ≤ 255
  | .at24cxxCheck => True

/-- Such a call byte by byte: the device behind it, and the answer. -/
def StoreCall.through (dev : ByteDevice σ) (s : σ) : StoreCall → σ × List UInt8
  | .at24cxxWrite addr _ buf => (dev.writeAll addr buf.toList s, [])
  | .at24cxxRead addr bufnum =>
      let (bytes, s) := dev.readAll addr bufnum.toNat s
      (s, bytes)
  | .at24cxxCheck =>
      let (data, s) := dev.readbyte (dev.writeAll EEPROM_ENDADDR [0xee, 0xee] s) 0
      (s, [if data ≠ 0xee then 0 else 1])

/-- It ends, by cases on the call. -/
theorem StoreCall.serve_short (dev : ByteDevice σ) {call : StoreCall} (short : call.Short)
    (s : σ)
    : StoreCall.serve dev s call = .ok (call.through dev s) := by
  cases call with
  | at24cxxWrite addr bufnum buf =>
      have few : bufnum.toNat ≤ 255 := UInt32.le_iff_toNat_le.mp short
      have ended := writeLoop_ends dev few buf rfl bufnum.toNat (Nat.lt_succ_of_le few)
        (i := 0) (Nat.zero_add _) addr s
      rw [UInt8.toNat_zero, List.drop_zero] at ended
      simp only [StoreCall.serve, At24c02.at24cxxWrite, ended]
      rfl
  | at24cxxRead addr bufnum =>
      have few : bufnum.toNat ≤ 255 := UInt32.le_iff_toNat_le.mp short
      have length := dev.readAll_length addr bufnum.toNat s
      have ended := readLoop_ends dev few bufnum.toNat (Nat.lt_succ_of_le few)
        (i := 0) (Nat.zero_add _) addr (Vector.replicate bufnum.toNat 0) s
      have buffer := Buffer.toList_store_front (Vector.replicate bufnum.toNat (0 : UInt8)) _
        (Nat.le_of_eq length)
      rw [length, List.drop_eq_nil_of_le (by simp), List.append_nil] at buffer
      simp only [StoreCall.serve, At24c02.at24cxxRead, ended, UInt8.toNat_zero, buffer]
      rfl
  | at24cxxCheck =>
      have written : At24c02.at24cxxWrite dev 256 EEPROM_ENDADDR #v[0xee, 0xee] 2 s
          = some (dev.writeAll EEPROM_ENDADDR [0xee, 0xee] s) :=
        writeLoop_ends dev (by decide) #v[0xee, 0xee] rfl 2 (by decide) rfl EEPROM_ENDADDR s
      simp only [StoreCall.serve, At24c02.at24cxxCheck, written]
      rfl

/-- A block starts in the chip and is within reach of the counter of the loops. -/
def StoreCall.Legal : StoreCall → Prop
  | .at24cxxWrite addr bufnum _ => addr ≤ EEPROM_ENDADDR ∧ bufnum ≤ 255
  | .at24cxxRead addr bufnum => addr ≤ EEPROM_ENDADDR ∧ bufnum ≤ 255
  | .at24cxxCheck => True

/-- What a call is to a store of 256 cells; a check is a write of two bytes over the end of the
chip, which it finds whatever was there.
-/
def StoreCall.meaning : StoreCall → Request UInt8 UInt8 UInt8
  | .at24cxxWrite addr _ buf => .write (· + 1) addr.toUInt8 buf.toList
  | .at24cxxRead addr bufnum => .read (· + 1) addr.toUInt8 bufnum.toNat
  | .at24cxxCheck =>
      { stored := leaves (· + 1) EEPROM_ENDADDR.toUInt8 [0xee, 0xee], answer := fun _ => [1] }

theorem StoreCall.Legal.short {call : StoreCall} (legal : call.Legal) : call.Short := by
  cases call with
  | at24cxxWrite addr bufnum buf => exact legal.2
  | at24cxxRead addr bufnum => exact legal.2
  | at24cxxCheck => trivial

variable {dev : ByteDevice σ} {ready : σ → Prop} {cells : σ → UInt8 → UInt8}

theorem storeCall_serves (ideal : dev.Ideal ready cells)
    : Serves (StoreCall.serve dev) ready StoreCall.Legal StoreCall.meaning cells where
  served s call here legal := by
    suffices done
        : (call.through dev s).2 = call.meaning.answer (cells s)
          ∧ ready (call.through dev s).1
          ∧ cells (call.through dev s).1 = call.meaning.after (cells s) by
      obtain ⟨answered, still, stored⟩ := done
      refine ⟨(call.through dev s).1, ?_, still, stored⟩
      rw [StoreCall.serve_short dev legal.short s, ← answered]
    cases call with
    | at24cxxWrite addr bufnum buf =>
        obtain ⟨stored, after⟩ := writeAll_cells ideal buf.toList legal.1 here
        exact ⟨rfl, after, stored.trans (Request.after_write _ _ _ _).symm⟩
    | at24cxxRead addr bufnum =>
        obtain ⟨read, kept, after⟩ := readAll_cells ideal bufnum.toNat legal.1 here
        exact ⟨read, after, kept⟩
    | at24cxxCheck =>
        obtain ⟨stored, after⟩ :=
          writeAll_cells ideal [0xee, 0xee] (UInt32.le_refl EEPROM_ENDADDR) here
        obtain ⟨data, kept, still⟩ := ideal.read _ 0 after (by decide)
        rw [stored] at data
        refine ⟨?_, still, ?_⟩
        · simp only [StoreCall.through, data]
          rfl
        · refine kept.trans ?_
          rw [stored, storeAll_eq_leaves]
          rfl

/-- A session over byte operations that are those on the cells. -/
theorem storeCall_session (ideal : dev.Ideal ready cells) {s : σ} (start : ready s)
    {calls : List StoreCall} (legal : ∀ call ∈ calls, call.Legal)
    : ∃ t answers,
        trace (StoreCall.serve dev) s calls = .ok (t, answers)
        ∧ ready t
        ∧ cells t = found (cells s) (calls.map StoreCall.meaning)
        ∧ (∀ before addr bufnum later,
          calls = before ++ .at24cxxRead addr bufnum :: later
          → answers[before.length]?
            = some ((List.range bufnum.toNat).map fun k =>
                found (cells s) (before.map StoreCall.meaning)
                  (addr.toUInt8 + UInt8.ofNat k)))
        ∧ ∀ before later,
          calls = before ++ .at24cxxCheck :: later → answers[before.length]? = some [1] := by
  obtain ⟨t, answers, served, done, stored, answered⟩ :=
    (storeCall_serves ideal).session start legal
  refine ⟨t, answers, served, done, stored, ?_, fun before later split =>
    answered before _ later split⟩
  intro before addr bufnum later split
  rw [answered before _ later split]
  simp only [StoreCall.meaning, Request.read, CellWalk.readAll_eq, cell_steps]

/-- In every session of the driver on an idle bus with the EEPROM, whatever the wiring: each
call ends, reads show the bytes that were written last, also around the end of the chip, the
chip is left with what was written last, and the bus is idle again. A check always answers
that it found the chip.
-/
theorem eeprom_session (w : Wiring) {s : Bus (Prompt Chip)} (idle : s.Idle w eeprom)
    (standby : Standby s) (calls : List StoreCall) (legal : ∀ call ∈ calls, call.Legal)
    : ∃ t answers,
        trace (StoreCall.serve (busDevice w)) s calls = .ok (t, answers)
        ∧ t.Idle w eeprom
        ∧ Standby t
        ∧ t.slave.chip.memory = found s.slave.chip.memory (calls.map StoreCall.meaning)
        ∧ (∀ before addr bufnum later,
          calls = before ++ .at24cxxRead addr bufnum :: later
          → answers[before.length]?
            = some ((List.range bufnum.toNat).map fun k =>
                found s.slave.chip.memory (before.map StoreCall.meaning)
                  (addr.toUInt8 + UInt8.ofNat k)))
        ∧ ∀ before later,
          calls = before ++ .at24cxxCheck :: later → answers[before.length]? = some [1] := by
  obtain ⟨t, answers, served, done, answered⟩ :=
    storeCall_session (busDevice_ideal w) ⟨idle, standby⟩ legal
  exact ⟨t, answers, served, done.1, done.2, answered⟩

/-- A byte behind the end of the chip is written, the check run over it, and it is read. -/
def overEndCalls : List StoreCall :=
  [.at24cxxWrite 255 2 #v[0x12, 0x34], .at24cxxCheck, .at24cxxRead 0 1]

theorem eeprom_session_overEnd
    : ∃ t answers,
        trace (StoreCall.serve (busDevice wiredAnd)) blank overEndCalls = .ok (t, answers)
        ∧ t.Idle wiredAnd eeprom
        ∧ Standby t
        ∧ t.slave.chip.memory = found (fun _ => 0xFF) (overEndCalls.map StoreCall.meaning)
        ∧ (∀ before addr bufnum later,
          overEndCalls = before ++ .at24cxxRead addr bufnum :: later
          → answers[before.length]?
            = some ((List.range bufnum.toNat).map fun k =>
                found (fun _ => 0xFF) (before.map StoreCall.meaning)
                  (addr.toUInt8 + UInt8.ofNat k)))
        ∧ ∀ before later,
          overEndCalls = before ++ .at24cxxCheck :: later → answers[before.length]? = some [1] :=
  eeprom_session wiredAnd blank_idle blank_standby overEndCalls
    (by simp [overEndCalls, StoreCall.Legal, EEPROM_ENDADDR])

end At32.At24c02
