import At32.Drivers.FlashBank
import At32.Lib.CellStore

/-! flash_write and flash_read over whole sessions: the bank as a store of halfwords that is
read back whatever the order of the calls, although a sector is erased and written again
wherever a range meets one that is not blank.
-/

namespace At32.Flash

open CellStore NorFlash Transducer

/-- The calls of the driver. -/
inductive StoreCall
  | flashWrite (addr : UInt32) (buf : List UInt16) (len : UInt16)
  | flashRead (addr : UInt32) (len : UInt16)

/-- One call, with as many passes as a range of 16 bits can need. -/
def StoreCall.serve (c : Controller) (f : State) : StoreCall → Except Unit (State × List UInt16)
  | .flashWrite addr buf len =>
      match Flash.flashWrite c (2 ^ 16) addr buf len f with
      | none => .error ()
      | some g => .ok (g, [])
  | .flashRead addr len => .ok (f, Flash.flashRead addr len f)

/-- Ranges are aligned; one that a write accepts ends in the bank, one that is read in the
address space.
-/
def StoreCall.Legal : StoreCall → Prop
  | .flashWrite addr buf len =>
      buf.length = len.toNat
      ∧ (PassesEntry addr
        → addr.toNat % 2 = 0
          ∧ addr.toNat + 2 * len.toNat ≤ (FLASH_BASE + BANK1 * SECTOR_SIZE).toNat)
  | .flashRead addr len => addr.toNat % 2 = 0 ∧ addr.toNat + 2 * len.toNat ≤ 2 ^ 32

instance (call : StoreCall) : Decidable call.Legal :=
  match call with
  | .flashWrite .. => inferInstanceAs (Decidable (_ ∧ (_ → _)))
  | .flashRead .. => inferInstanceAs (Decidable (_ ∧ _))

/-- What a call is to a store of halfwords: a write outside the bank stores nothing. -/
def StoreCall.meaning : StoreCall → Request Nat UInt16 UInt16
  | .flashWrite addr buf _ =>
      .write (· + 1) (addr.toNat / 2) (if PassesEntry addr then buf else [])
  | .flashRead addr len => .read (· + 1) (addr.toNat / 2) len.toNat

variable {c : Controller}

theorem halfwords_steps (cell k : Nat) : (· + 1)^[k] cell = cell + k := by
  induction k generalizing cell with
  | zero => rfl
  | succ k ih => rw [Function.iterate_succ_apply, ih, Nat.add_right_comm, Nat.add_assoc]

theorem halfwords_fresh (cell count : Nat) : CellWalk.Fresh (· + 1) cell count := by
  intro i j _ _ same
  rwa [halfwords_steps, halfwords_steps, Nat.add_left_cancel_iff] at same

/-- An update of a range is a walk over it. -/
theorem updates_storeAll {before after : Memory UInt16} {cell : Nat} {values : List UInt16}
    (updates : before.Updates blank after cell values)
    : after.cells = CellWalk.storeAll (· + 1) (fun _ item => item) before.cells cell values := by
  funext other
  by_cases inside : cell ≤ other ∧ other < cell + values.length
  · obtain ⟨k, rfl⟩ := Nat.exists_eq_add_of_le inside.1
    have sent : k < values.length := Nat.lt_of_add_lt_add_left inside.2
    have place := halfwords_steps cell k
    rw [← place, CellWalk.storeAll_at (halfwords_fresh cell values.length)
      (List.getElem?_eq_getElem sent), place, updates.written k sent]
  · rw [updates.kept other (by omega)]
    refine (CellWalk.storeAll_outside fun k sent same => inside ?_).symm
    rw [halfwords_steps] at same
    omega

/-- A write that passes the entry check updates its range and nothing else. -/
theorem flashWrite_stores (ready : c.Ready) (page : c.page = SECTOR_SIZE.toNat)
    {addr : UInt32} {buf : List UInt16} {len : UInt16} (f : State) (entry : PassesEntry addr)
    (even : addr.toNat % 2 = 0)
    (bound : addr.toNat + 2 * len.toNat ≤ (FLASH_BASE + BANK1 * SECTOR_SIZE).toNat)
    (buffer : buf.length = len.toNat)
    : ∃ g,
        flashWrite c (2 ^ 16) addr buf len f = some g
        ∧ f.memory.Updates blank g.memory (addr.toNat / 2) buf := by
  obtain ⟨place, _⟩ := place_entry addr buf len entry (Nat.le_of_eq buffer.symm)
  have start := place.start
  have base : FLASH_BASE.toNat = 0x08000000 := rfl
  have top : (FLASH_BASE + BANK1 * SECTOR_SIZE).toNat = 0x08000000 + 255 * 2048 := rfl
  have inside : addr.toNat + 2 * len.toNat ≤ FLASH_BASE.toNat + 255 * 2048 :=
    Nat.le_trans bound (Nat.le_of_eq top)
  obtain ⟨g, ended, updates⟩ :=
    flashWriteLoop_updates ready page (2 ^ 16) ((addr - FLASH_BASE) / SECTOR_SIZE) _ _ addr buf
      len f (by omega) place.inside place.part inside buffer len.toNat_lt
  exact ⟨g, (flashWrite_loop c addr buf len entry (2 ^ 16) f).trans ended, updates⟩

/-- A write outside the bank is refused. -/
theorem flashWrite_refused {addr : UInt32} (outside : ¬ PassesEntry addr) (passes : Nat)
    (buf : List UInt16) (len : UInt16) (f : State)
    : flashWrite c passes addr buf len f = some f :=
  if_pos (Decidable.not_not.mp outside)

/-- The controller serves the calls as a store of halfwords, and programs erased halfwords
only.
-/
theorem store_serves (ready : c.Ready) (page : c.page = SECTOR_SIZE.toNat)
    (start : Memory UInt16)
    : Serves (StoreCall.serve c) (fun f => start.CleanlyBecomes blank f.memory) StoreCall.Legal
        StoreCall.meaning (fun f => f.memory.cells) where
  served f call clean legal := by
    cases call with
    | flashRead addr len =>
        obtain ⟨_, fits⟩ := legal
        refine ⟨f, ?_, clean, rfl⟩
        simp only [StoreCall.serve, flashRead, flashReadHalfWords_eq addr len.toNat f fits]
        simp only [StoreCall.meaning, Request.read, CellWalk.readAll_eq, halfwords_steps]
    | flashWrite addr buf len =>
        obtain ⟨buffer, inBank⟩ := legal
        by_cases entry : PassesEntry addr
        · obtain ⟨even, bound⟩ := inBank entry
          obtain ⟨g, ended, updates⟩ := flashWrite_stores ready page f entry even bound buffer
          refine ⟨g, by simp only [StoreCall.serve, ended]; rfl, clean.trans updates.clean, ?_⟩
          simp only [StoreCall.meaning, if_pos entry]
          rw [Request.after_write, updates_storeAll updates]
        · refine ⟨f, ?_, clean, ?_⟩
          · simp only [StoreCall.serve, flashWrite_refused entry]
            rfl
          · simp only [StoreCall.meaning, if_neg entry]
            rw [Request.after_write]
            rfl

/-- In every session of writes and reads each call ends; each read shows the halfwords that
were written last, or those of the start, whatever pages were erased and written again in
between; every halfword of the flash is left with what was written last; and only erased
halfwords have been programmed.
-/
theorem flash_session (ready : c.Ready) (page : c.page = SECTOR_SIZE.toNat) (f : State)
    (calls : List StoreCall) (legal : ∀ call ∈ calls, call.Legal)
    : ∃ g answers,
        trace (StoreCall.serve c) f calls = .ok (g, answers)
        ∧ g.memory.cells = found f.memory.cells (calls.map StoreCall.meaning)
        ∧ f.memory.CleanlyBecomes blank g.memory
        ∧ ∀ before addr len later,
            calls = before ++ .flashRead addr len :: later
            → answers[before.length]?
              = some ((List.range len.toNat).map fun k =>
                  found f.memory.cells (before.map StoreCall.meaning) (addr.toNat / 2 + k)) := by
  obtain ⟨g, answers, served, clean, cells, answered⟩ :=
    (store_serves ready page f.memory).session (.refl blank f.memory) legal
  refine ⟨g, answers, served, cells, clean, fun before addr len later split => ?_⟩
  rw [answered before _ later split]
  simp only [StoreCall.meaning, Request.read, CellWalk.readAll_eq, halfwords_steps]

/-- A halfword is written twice, once over the other, and read. -/
def overwriteCalls : List StoreCall :=
  [.flashWrite 0x08000002 [0x1234] 1, .flashWrite 0x08000002 [0x5678] 1,
    .flashRead 0x08000002 1]

theorem flash_session_overwrite
    : ∃ g answers,
        trace (StoreCall.serve ⟨2048, fun _ => 0⟩) ⟨⟨fun _ => 0xFFFF, []⟩, 0⟩ overwriteCalls
          = .ok (g, answers)
        ∧ g.memory.cells = found (fun _ => 0xFFFF) (overwriteCalls.map StoreCall.meaning)
        ∧ Memory.CleanlyBecomes blank ⟨fun _ => 0xFFFF, []⟩ g.memory
        ∧ ∀ before addr len later,
            overwriteCalls = before ++ .flashRead addr len :: later
            → answers[before.length]?
              = some ((List.range len.toNat).map fun k =>
                  found (fun _ => 0xFFFF) (before.map StoreCall.meaning)
                    (addr.toNat / 2 + k)) :=
  flash_session (c := ⟨2048, fun _ => 0⟩) (Controller.ready_of_idle _ fun _ => rfl) rfl
    ⟨⟨fun _ => 0xFFFF, []⟩, 0⟩ overwriteCalls (by decide +kernel)

end At32.Flash
