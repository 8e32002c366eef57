import At32.Devices.Eeprom
import At32.Lib.Buffer
import At32.Lib.CellWalk

/-! Blocks of bytes on the EEPROM: the loops over the byte operations, when they end, and what
a block that was written reads as.
-/

namespace At32.At24c02

open I2c

abbrev EEPROM_ENDADDR : UInt32 := 255

/-- The byte operations, on anything that has them. -/
structure ByteDevice (σ : Type) where
  readbyte : σ → UInt32 → UInt8 × σ
  writebyte : σ → UInt32 → UInt8 → σ

/-- The address behind a byte, which begins again at the end of the chip. -/
def nextAddr (addr : UInt32) : UInt32 :=
  let addr := addr + 1
  if EEPROM_ENDADDR < addr then 0 else addr

variable {σ : Type} {size : Nat}

/-- The loop of AT24CXX_read, with a limit on its passes: what it returns, the buffer and the
device. Its counter has eight bits.
-/
def at24cxxReadLoop (dev : ByteDevice σ) (bufnum : UInt32)
    : (passes : Nat) → (i : UInt8) → UInt32 → Vector UInt8 size → σ
      → Option (UInt32 × Vector UInt8 size × σ)
  | 0, _, _, _, _ => none
  | passes + 1, i, addr, buf, s =>
      if i.toUInt32 < bufnum then
        let (byte, s) := dev.readbyte s addr
        at24cxxReadLoop dev bufnum passes (i + 1) (nextAddr addr)
          (buf.setIfInBounds i.toNat byte) s
      else
        some (i.toUInt32, buf, s)

/-- AT24CXX_read -/
def at24cxxRead (dev : ByteDevice σ) (passes : Nat) (addr : UInt32) (buf : Vector UInt8 size)
    (bufnum : UInt32) (s : σ)
    : Option (UInt32 × Vector UInt8 size × σ) :=
  at24cxxReadLoop dev bufnum passes 0 addr buf s

/-- The loop of AT24CXX_write. -/
def at24cxxWriteLoop (dev : ByteDevice σ) (buf : Vector UInt8 size) (bufnum : UInt32)
    : (passes : Nat) → (i : UInt8) → UInt32 → σ → Option σ
  | 0, _, _, _ => none
  | passes + 1, i, addr, s =>
      if i.toUInt32 < bufnum then
        at24cxxWriteLoop dev buf bufnum passes (i + 1) (nextAddr addr)
          (dev.writebyte s addr (buf[i.toNat]?.getD 0))
      else
        some s

/-- AT24CXX_write -/
def at24cxxWrite (dev : ByteDevice σ) (passes : Nat) (addr : UInt32) (buf : Vector UInt8 size)
    (bufnum : UInt32) (s : σ)
    : Option σ :=
  at24cxxWriteLoop dev buf bufnum passes 0 addr s

/-- AT24CXX_check: two bytes over the end of the chip, of which the second one lies at
address 0.
-/
def at24cxxCheck (dev : ByteDevice σ) (passes : Nat) (s : σ) : Option (UInt8 × σ) :=
  match at24cxxWrite dev passes EEPROM_ENDADDR #v[0xee, 0xee] 2 s with
  | none => none
  | some s =>
      let (data, s) := dev.readbyte s 0
      some (if data ≠ 0xee then 0 else 1, s)

-----------------------------------------------------------------------------------------
-- When the loops end
-----------------------------------------------------------------------------------------

namespace ByteDevice

/-- The device with a count of its byte operations. -/
def counted (dev : ByteDevice σ) : ByteDevice (σ × Nat) where
  readbyte s addr :=
    let (byte, next) := dev.readbyte s.1 addr
    (byte, next, s.2 + 1)
  writebyte s addr byte := (dev.writebyte s.1 addr byte, s.2 + 1)

/-- So many bytes read one after another, and the device behind them. -/
def readAll (dev : ByteDevice σ) : UInt32 → Nat → σ → List UInt8 × σ
  | _, 0, s => ([], s)
  | addr, count + 1, s =>
      let (byte, s) := dev.readbyte s addr
      let (rest, s) := dev.readAll (nextAddr addr) count s
      (byte :: rest, s)

/-- The device behind bytes written one after another. -/
def writeAll (dev : ByteDevice σ) : UInt32 → List UInt8 → σ → σ
  | _, [], s => s
  | addr, byte :: rest, s => dev.writeAll (nextAddr addr) rest (dev.writebyte s addr byte)

theorem readAll_length (dev : ByteDevice σ) (addr : UInt32) (count : Nat) (s : σ)
    : (dev.readAll addr count s).1.length = count := by
  induction count generalizing addr s with
  | zero => rfl
  | succ count ih => exact congrArg Nat.succ (ih _ _)

theorem counted_readAll (dev : ByteDevice σ) (addr : UInt32) (count : Nat) (s : σ × Nat)
    : (dev.counted.readAll addr count s).2.2 = s.2 + count := by
  induction count generalizing addr s with
  | zero => rfl
  | succ count ih =>
      rw [readAll]
      refine (ih _ _).trans ?_
      simp only [counted]
      omega

theorem counted_writeAll (dev : ByteDevice σ) (addr : UInt32) (bytes : List UInt8) (s : σ × Nat)
    : (dev.counted.writeAll addr bytes s).2 = s.2 + bytes.length := by
  induction bytes generalizing addr s with
  | nil => rfl
  | cons byte rest ih =>
      rw [writeAll, ih, List.length_cons]
      simp only [counted]
      omega

end ByteDevice

/-- Below 255 the counter does not wrap. -/
theorem counter_next {i : UInt8} (below : i.toNat < 255) : (i + 1).toNat = i.toNat + 1 := by
  rw [UInt8.toNat_add, UInt8.toNat_one]
  omega

theorem counter_lt_iff (i : UInt8) (bufnum : UInt32)
    : i.toUInt32 < bufnum ↔ i.toNat < bufnum.toNat := by
  rw [UInt32.lt_iff_toNat_lt, UInt8.toNat_toUInt32]

/-- A block of at most 255 bytes is read byte by byte, by induction on the bytes to come. -/
theorem readLoop_ends (dev : ByteDevice σ) {bufnum : UInt32} (short : bufnum.toNat ≤ 255)
    (count : Nat) {passes : Nat} (enough : count < passes) {i : UInt8}
    (left : i.toNat + count = bufnum.toNat) (addr : UInt32) (buf : Vector UInt8 size) (s : σ)
    : at24cxxReadLoop dev bufnum passes i addr buf s
      = some (bufnum, Buffer.store buf i.toNat (dev.readAll addr count s).1,
          (dev.readAll addr count s).2) := by
  induction count generalizing passes i addr buf s with
  | zero =>
      obtain ⟨passes, rfl⟩ := Nat.exists_eq_succ_of_ne_zero (Nat.pos_iff_ne_zero.mp enough)
      have last : i.toUInt32 = bufnum := by
        rw [← UInt32.toNat_inj, UInt8.toNat_toUInt32, ← left, Nat.add_zero]
      rw [at24cxxReadLoop, if_neg (by rw [last]; exact UInt32.lt_irrefl _), last]
      rfl
  | succ count ih =>
      obtain ⟨passes, rfl⟩ := Nat.exists_eq_succ_of_ne_zero (Nat.ne_zero_of_lt enough)
      have next : (i + 1).toNat = i.toNat + 1 := counter_next (by omega)
      have more : i.toUInt32 < bufnum := (counter_lt_iff i bufnum).mpr (by omega)
      rw [at24cxxReadLoop, if_pos more]
      simp only
      rw [ih (by omega) (by omega), next]
      rfl

/-- So is it written. -/
theorem writeLoop_ends (dev : ByteDevice σ) {bufnum : UInt32} (short : bufnum.toNat ≤ 255)
    (buf : Vector UInt8 size) (held : size = bufnum.toNat) (count : Nat) {passes : Nat}
    (enough : count < passes) {i : UInt8} (left : i.toNat + count = bufnum.toNat)
    (addr : UInt32) (s : σ)
    : at24cxxWriteLoop dev buf bufnum passes i addr s
      = some (dev.writeAll addr (buf.toList.drop i.toNat) s) := by
  induction count generalizing passes i addr s with
  | zero =>
      obtain ⟨passes, rfl⟩ := Nat.exists_eq_succ_of_ne_zero (Nat.pos_iff_ne_zero.mp enough)
      have last : ¬ i.toUInt32 < bufnum := (counter_lt_iff i bufnum).not.mpr (by omega)
      rw [at24cxxWriteLoop, if_neg last, List.drop_eq_nil_of_le]
      · rfl
      · rw [Vector.length_toList]
        omega
  | succ count ih =>
      obtain ⟨passes, rfl⟩ := Nat.exists_eq_succ_of_ne_zero (Nat.ne_zero_of_lt enough)
      have next : (i + 1).toNat = i.toNat + 1 := counter_next (by omega)
      have more : i.toUInt32 < bufnum := (counter_lt_iff i bufnum).mpr (by omega)
      have inside : i.toNat < size := by omega
      have first : buf.toList.drop i.toNat
          = buf[i.toNat]?.getD 0 :: buf.toList.drop (i.toNat + 1) := by
        rw [List.drop_eq_getElem_cons (by rwa [Vector.length_toList]), Vector.getElem_toList,
          Vector.getElem?_eq_getElem inside, Option.getD_some]
      rw [at24cxxWriteLoop, if_pos more, ih (by omega) (by omega), next, first,
        ByteDevice.writeAll]

/-- The counter is below every longer block, so the loops run for ever; by induction on the
passes.
-/
theorem readLoop_endless (dev : ByteDevice σ) {bufnum : UInt32} (long : 255 < bufnum.toNat)
    (passes : Nat) (i : UInt8) (addr : UInt32) (buf : Vector UInt8 size) (s : σ)
    : at24cxxReadLoop dev bufnum passes i addr buf s = none := by
  induction passes generalizing i addr buf s with
  | zero => rfl
  | succ passes ih =>
      have bound := i.toNat_lt
      have more : i.toUInt32 < bufnum := (counter_lt_iff i bufnum).mpr (by omega)
      rw [at24cxxReadLoop, if_pos more]
      exact ih _ _ _ _

/-- The two calls end after as many byte operations as the block has bytes, and
AT24CXX_read returns that number, exactly when there are at most 255 of them.
-/
theorem at24cxx_ends_iff (dev : ByteDevice σ) (s : σ) (addr bufnum : UInt32)
    (buf : Vector UInt8 bufnum.toNat)
    : ((∃ passes out t,
          at24cxxRead dev.counted passes addr buf bufnum (s, 0)
            = some (bufnum, out, t, bufnum.toNat))
        ∧ ∃ passes t,
          at24cxxWrite dev.counted passes addr buf bufnum (s, 0) = some (t, bufnum.toNat))
      ↔ bufnum ≤ 255 := by
  constructor
  · intro ends
    obtain ⟨⟨passes, out, t, ended⟩, _⟩ := ends
    by_contra long
    have above : 255 < bufnum.toNat := UInt32.lt_iff_toNat_lt.mp (UInt32.not_le.mp long)
    rw [at24cxxRead, readLoop_endless dev.counted above] at ended
    cases ended
  · intro short
    have bound : bufnum.toNat ≤ 255 := UInt32.le_iff_toNat_le.mp short
    have start : (0 : UInt8).toNat + bufnum.toNat = bufnum.toNat := Nat.zero_add _
    have reads := dev.counted_readAll addr bufnum.toNat (s, 0)
    have writes := dev.counted_writeAll addr buf.toList (s, 0)
    have read := readLoop_ends dev.counted bound bufnum.toNat (Nat.lt_succ_self _) start addr
      buf (s, 0)
    have written := writeLoop_ends dev.counted bound buf rfl bufnum.toNat (Nat.lt_succ_self _)
      start addr (s, 0)
    rw [UInt8.toNat_zero, List.drop_zero] at written
    rw [Nat.zero_add] at reads writes
    rw [Vector.length_toList] at writes
    constructor
    · generalize dev.counted.readAll addr bufnum.toNat (s, 0) = result at read reads
      obtain ⟨bytes, t, count⟩ := result
      obtain rfl : count = bufnum.toNat := reads
      exact ⟨_, _, t, read⟩
    · generalize dev.counted.writeAll addr buf.toList (s, 0) = result at written writes
      obtain ⟨t, count⟩ := result
      obtain rfl : count = bufnum.toNat := writes
      exact ⟨_, t, written⟩

/-- The cells alone. -/
def cellDevice : ByteDevice (UInt8 → UInt8) where
  readbyte cells addr := (cells addr.toUInt8, cells)
  writebyte cells addr byte := Function.update cells addr.toUInt8 byte

/-- The whole chip is a block of 256 bytes, over which the loops run for ever. -/
theorem at24cxx_endless_wholeChip
    : ¬ ((∃ passes out t,
          at24cxxRead cellDevice.counted passes 0 (Vector.replicate 256 0) 256 (fun _ => 0xFF, 0)
            = some (256, out, t, 256))
        ∧ ∃ passes t,
          at24cxxWrite cellDevice.counted passes 0 (Vector.replicate 256 0) 256
              (fun _ => 0xFF, 0)
            = some (t, 256)) := by
  intro ends
  obtain ⟨⟨passes, out, t, ended⟩, _⟩ := ends
  rw [at24cxxRead, readLoop_endless cellDevice.counted (by decide)] at ended
  cases ended

-----------------------------------------------------------------------------------------
-- What a block that was written reads as
-----------------------------------------------------------------------------------------

/-- While (ready) holds, the byte operations are those on 256 cells. -/
structure ByteDevice.Ideal (dev : ByteDevice σ) (ready : σ → Prop) (cells : σ → UInt8 → UInt8)
    : Prop where
  read
    : ∀ s addr,
        ready s
        → addr ≤ EEPROM_ENDADDR
        → (dev.readbyte s addr).1 = cells s addr.toUInt8
          ∧ cells (dev.readbyte s addr).2 = cells s
          ∧ ready (dev.readbyte s addr).2
  write
    : ∀ s addr byte,
        ready s
        → addr ≤ EEPROM_ENDADDR
        → cells (dev.writebyte s addr byte) = Function.update (cells s) addr.toUInt8 byte
          ∧ ready (dev.writebyte s addr byte)

theorem cellDevice_ideal : cellDevice.Ideal (fun _ => True) id where
  read _ _ _ _ := ⟨rfl, rfl, trivial⟩
  write _ _ _ _ _ := ⟨rfl, trivial⟩

/-- The EEPROM on the bus. -/
def busDevice (w : Wiring) : ByteDevice (Bus (Prompt Chip)) where
  readbyte s addr := readOut w eeprom addr s
  writebyte s addr byte := written w eeprom addr byte s

/-- On an idle bus the byte operations of the driver are those on the cells of the chip. -/
theorem busDevice_ideal (w : Wiring)
    : (busDevice w).Ideal (fun s => s.Idle w eeprom ∧ Standby s)
        (fun s => s.slave.chip.memory) where
  read _ addr ready _ := readOut_eeprom ready.1 ready.2 addr
  write _ addr byte ready _ := written_eeprom ready.1 ready.2 addr byte

/-- Behind an address of the chip is the next cell, the first one behind the last. -/
theorem nextAddr_cell {addr : UInt32} (inChip : addr ≤ EEPROM_ENDADDR)
    : nextAddr addr ≤ EEPROM_ENDADDR ∧ (nextAddr addr).toUInt8 = addr.toUInt8 + 1 := by
  have below : addr.toNat ≤ 255 := UInt32.le_iff_toNat_le.mp inChip
  have next : (addr + 1).toNat = addr.toNat + 1 := by
    rw [UInt32.toNat_add, UInt32.toNat_one]
    omega
  have last : EEPROM_ENDADDR < addr + 1 ↔ addr.toNat = 255 := by
    rw [UInt32.lt_iff_toNat_lt, next]
    change 255 < addr.toNat + 1 ↔ _
    omega
  unfold nextAddr
  simp only [last]
  split
  · rename_i at_end
    obtain rfl : addr = 255 := UInt32.toNat_inj.mp at_end
    exact ⟨by decide, rfl⟩
  · rename_i before
    refine ⟨?_, UInt32.toUInt8_add _ _⟩
    rw [UInt32.le_iff_toNat_le, next]
    change addr.toNat + 1 ≤ 255
    omega

/-- The cell so many steps on. -/
theorem cell_steps (cell : UInt8) (k : Nat) : (· + 1)^[k] cell = cell + UInt8.ofNat k := by
  induction k generalizing cell with
  | zero => exact (UInt8.add_zero cell).symm
  | succ k ih =>
      rw [Function.iterate_succ_apply, ih, Nat.add_comm, UInt8.ofNat_add, UInt8.add_assoc]
      rfl

theorem cells_fresh (cell : UInt8) {count : Nat} (fits : count ≤ 256)
    : CellWalk.Fresh (· + 1) cell count := by
  intro i j left right same
  rw [cell_steps, cell_steps, UInt8.add_right_inj, ← UInt8.toNat_inj, UInt8.toNat_ofNat',
    UInt8.toNat_ofNat'] at same
  omega

section Ideal

variable {dev : ByteDevice σ} {ready : σ → Prop} {cells : σ → UInt8 → UInt8}
  (ideal : dev.Ideal ready cells)
include ideal

/-- Bytes written one after another are stored in the cells one after another. -/
theorem writeAll_cells (bytes : List UInt8) {addr : UInt32} (inChip : addr ≤ EEPROM_ENDADDR)
    {s : σ} (here : ready s)
    : cells (dev.writeAll addr bytes s)
        = CellWalk.storeAll (· + 1) (fun _ byte => byte) (cells s) addr.toUInt8 bytes
      ∧ ready (dev.writeAll addr bytes s) := by
  induction bytes generalizing addr s with
  | nil => exact ⟨rfl, here⟩
  | cons byte rest ih =>
      obtain ⟨stored, after⟩ := ideal.write s addr byte here inChip
      obtain ⟨nextIn, nextCell⟩ := nextAddr_cell inChip
      rw [ByteDevice.writeAll, CellWalk.storeAll, ← stored, ← nextCell]
      exact ih nextIn after

/-- Bytes read one after another are those of the cells, which keep them. -/
theorem readAll_cells (count : Nat) {addr : UInt32} (inChip : addr ≤ EEPROM_ENDADDR) {s : σ}
    (here : ready s)
    : (dev.readAll addr count s).1 = CellWalk.readAll (· + 1) (cells s) addr.toUInt8 count
      ∧ cells (dev.readAll addr count s).2 = cells s
      ∧ ready (dev.readAll addr count s).2 := by
  induction count generalizing addr s with
  | zero => exact ⟨rfl, rfl, here⟩
  | succ count ih =>
      obtain ⟨byte, kept, after⟩ := ideal.read s addr here inChip
      obtain ⟨nextIn, nextCell⟩ := nextAddr_cell inChip
      obtain ⟨bytes, still, last⟩ := ih nextIn after
      rw [ByteDevice.readAll, CellWalk.readAll, ← byte, ← nextCell, ← kept, ← bytes]
      exact ⟨rfl, still, last⟩

/-- Bytes for no more cells than there are read as they were written. -/
theorem readAll_writeAll (bytes : List UInt8) (fits : bytes.length ≤ 256) {addr : UInt32}
    (inChip : addr ≤ EEPROM_ENDADDR) {s : σ} (here : ready s)
    : (dev.readAll addr bytes.length (dev.writeAll addr bytes s)).1 = bytes := by
  obtain ⟨stored, after⟩ := writeAll_cells ideal bytes inChip here
  obtain ⟨read, _, _⟩ := readAll_cells ideal bytes.length inChip after
  rw [read, stored]
  exact CellWalk.readAll_storeAll (fun _ _ => rfl) (cells_fresh _ fits)

/-- A cell that is not among those written keeps what it holds. -/
theorem writeAll_outside (bytes : List UInt8) {addr : UInt32} (inChip : addr ≤ EEPROM_ENDADDR)
    {s : σ} (here : ready s) {cell : UInt8}
    (outside : ∀ k < bytes.length, cell.toNat ≠ (addr.toNat + k) % 256)
    : cells (dev.writeAll addr bytes s) cell = cells s cell := by
  rw [(writeAll_cells ideal bytes inChip here).1]
  refine CellWalk.storeAll_outside fun k inside place => outside k inside ?_
  rw [← place, cell_steps, UInt8.toNat_add, UInt32.toNat_toUInt8, UInt8.toNat_ofNat']
  omega

end Ideal

/-- A block of at most 255 bytes that is written, also over the end of the chip, is read
back, and the cells outside it keep what they hold.
-/
theorem at24cxx_roundTrip {dev : ByteDevice σ} {ready : σ → Prop} {cells : σ → UInt8 → UInt8}
    (ideal : dev.Ideal ready cells) {s : σ} (here : ready s) {addr : UInt32}
    (inChip : addr ≤ EEPROM_ENDADDR) {n : Nat} (short : n ≤ 255) (buf out : Vector UInt8 n)
    : ∃ t u,
        (∀ passes, n < passes → at24cxxWrite dev passes addr buf (UInt32.ofNat n) s = some t)
        ∧ (∀ passes,
          n < passes
          → at24cxxRead dev passes addr out (UInt32.ofNat n) t
            = some (UInt32.ofNat n, buf, u))
        ∧ ∀ cell : UInt8,
          (∀ k < n, cell.toNat ≠ (addr.toNat + k) % 256)
          → cells t cell = cells s cell ∧ cells u cell = cells s cell := by
  have bufnum : (UInt32.ofNat n).toNat = n := by
    rw [UInt32.toNat_ofNat']
    exact Nat.mod_eq_of_lt (by omega)
  have few : (UInt32.ofNat n).toNat ≤ 255 := by rwa [bufnum]
  have start : (0 : UInt8).toNat + n = (UInt32.ofNat n).toNat := by
    rw [bufnum]
    exact Nat.zero_add n
  have after := (writeAll_cells ideal buf.toList inChip here).2
  have kept := (readAll_cells ideal n inChip after).2.1
  have back := readAll_writeAll ideal buf.toList (by rw [Vector.length_toList]; omega) inChip here
  rw [Vector.length_toList] at back
  refine ⟨dev.writeAll addr buf.toList s, (dev.readAll addr n (dev.writeAll addr buf.toList s)).2,
    fun passes enough => ?_, fun passes enough => ?_, fun cell outside => ?_⟩
  · have ended := writeLoop_ends dev few buf bufnum.symm n enough start addr s
    rwa [UInt8.toNat_zero, List.drop_zero] at ended
  · have ended := readLoop_ends dev few n enough start addr out
      (dev.writeAll addr buf.toList s)
    have held : Buffer.store out 0 buf.toList = buf := by
      apply Vector.toList_inj.mp
      rw [Buffer.toList_store_front out _ (Nat.le_of_eq buf.length_toList),
        List.drop_eq_nil_of_le (by simp), List.append_nil]
    rw [back, UInt8.toNat_zero, held] at ended
    exact ended
  · have same := writeAll_outside ideal buf.toList inChip here
      (by rwa [Vector.length_toList] : ∀ k < buf.toList.length, _)
    exact ⟨same, by rw [kept, same]⟩

/-- The block of AT24CXX_check, over the end of the chip. -/
theorem at24cxx_roundTrip_overEnd
    : ∃ t u,
        (∀ passes,
          2 < passes
          → at24cxxWrite cellDevice passes 255 #v[0xee, 0xef] (UInt32.ofNat 2) (fun _ => 0xFF)
            = some t)
        ∧ (∀ passes,
          2 < passes
          → at24cxxRead cellDevice passes 255 #v[0, 0] (UInt32.ofNat 2) t
            = some (UInt32.ofNat 2, #v[0xee, 0xef], u))
        ∧ ∀ cell : UInt8,
          (∀ k < 2, cell.toNat ≠ ((255 : UInt32).toNat + k) % 256)
          → id t cell = 0xFF ∧ id u cell = 0xFF :=
  at24cxx_roundTrip cellDevice_ideal trivial (by decide) (by decide) #v[0xee, 0xef] #v[0, 0]

end At32.At24c02
