import At32.Lib.CellWalk
import At32.Lib.Port

/-! A serial NOR flash behind a select line and a shift register: its commands, byte by byte,
and rules for programs that send them. A sector erase sets 4096 cells to 0xFF, a page program
joins its bytes to what the cells of a page of 256 hold, and both need the write enable latch
and leave the chip busy.
-/

namespace SerialFlash

open CellWalk Port

@[match_pattern] abbrev PAGE_PROGRAM : UInt8 := 0x02
@[match_pattern] abbrev READ : UInt8 := 0x03
@[match_pattern] abbrev WRITE_DISABLE : UInt8 := 0x04
@[match_pattern] abbrev READ_STATUS : UInt8 := 0x05
@[match_pattern] abbrev WRITE_ENABLE : UInt8 := 0x06
@[match_pattern] abbrev SECTOR_ERASE : UInt8 := 0x20

/-- Addresses have three bytes, the highest first. -/
def address (high middle low : UInt8) : Nat :=
  high.toNat * 0x10000 + middle.toNat * 0x100 + low.toNat

/-- Reading goes on at the start of the chip behind its end. -/
def nextCell (cell : Nat) : Nat := (cell + 1) % 0x1000000

/-- Programming goes on at the start of a page behind its end. -/
def nextInPage (cell : Nat) : Nat := cell / 256 * 256 + (cell + 1) % 256

def eraseSector (cells : Nat → UInt8) (sector : Nat) : Nat → UInt8 :=
  fun cell => if cell / 4096 = sector / 4096 then 0xFF else cells cell

/-- Programming clears bits and sets none. -/
def programPage (cells : Nat → UInt8) (cell : Nat) (data : List UInt8) : Nat → UInt8 :=
  storeAll nextInPage (fun held byte => held &&& byte) cells cell data

/-- The chip: its cells, the bytes received since it was selected, the write enable latch, how
many readings of the status still show it busy, and the byte last shifted out.
-/
structure Chip where
  cells : Nat → UInt8
  selected : Bool
  received : List UInt8
  enabled : Bool
  busy : Nat
  reply : UInt8

/-- How many readings of the status show the chip busy behind an erase and a program. -/
structure Timing where
  erase : Nat
  program : Nat

inductive Action
  | select (level : Bool)
  | transfer (data : UInt8)

namespace Chip

/-- Bit 0 shows a busy chip and bit 1 the latch. -/
def status (s : Chip) : UInt8 :=
  (if s.busy = 0 then 0 else 1) ||| (if s.enabled then 2 else 0)

/-- The byte shifted out behind those received. -/
def answer (s : Chip) : UInt8 :=
  match s.received with
  | READ_STATUS :: _ => s.status
  | READ :: high :: middle :: low :: shifted =>
      if s.busy = 0 then s.cells (nextCell^[shifted.length] (address high middle low)) else 0xFF
  | _ => 0xFF

/-- A byte shifted in while another one is shifted out; time passes with each status. -/
def transfer (s : Chip) (data : UInt8) : Chip :=
  if s.selected then
    { s with
      received := s.received ++ [data]
      reply := s.answer
      busy := if s.received.head? = some READ_STATUS then s.busy - 1 else s.busy }
  else
    s

/-- A command is taken when the chip is no longer selected, unless it is busy. -/
def command (timing : Timing) (s : Chip) : Chip :=
  match s.received with
  | [WRITE_ENABLE] => { s with enabled := true }
  | [WRITE_DISABLE] => { s with enabled := false }
  | [SECTOR_ERASE, high, middle, low] =>
      if s.enabled then
        { s with
          cells := eraseSector s.cells (address high middle low)
          enabled := false
          busy := timing.erase }
      else
        s
  | PAGE_PROGRAM :: high :: middle :: low :: first :: rest =>
      if s.enabled then
        { s with
          cells := programPage s.cells (address high middle low) (first :: rest)
          enabled := false
          busy := timing.program }
      else
        s
  | _ => s

/-- The select line is active when low. -/
def select (timing : Timing) (s : Chip) (level : Bool) : Chip :=
  if level then
    { (if s.busy = 0 then s.command timing else s) with selected := false, received := [] }
  else
    { s with selected := true, received := [] }

end Chip

/-- The chip as a device behind a port, which shows the byte shifted out. -/
def chip (timing : Timing) : Device Action UInt8 Chip where
  apply s
    | .select level => s.select timing level
    | .transfer data => s.transfer data
  look s := s.reply

-----------------------------------------------------------------------------------------
-- Cells
-----------------------------------------------------------------------------------------

theorem nextCell_iterate (k : Nat) {cell : Nat} (inside : cell < 0x1000000)
    : nextCell^[k] cell = (cell + k) % 0x1000000 := by
  induction k with
  | zero => exact (Nat.mod_eq_of_lt inside).symm
  | succ k ih =>
      rw [Function.iterate_succ_apply', ih, nextCell]
      omega

theorem nextInPage_iterate (k cell : Nat)
    : nextInPage^[k] cell = cell / 256 * 256 + (cell + k) % 256 := by
  induction k with
  | zero =>
      change cell = _
      omega
  | succ k ih =>
      rw [Function.iterate_succ_apply', ih, nextInPage]
      omega

/-- A page has 256 cells. -/
theorem nextInPage_fresh (cell : Nat) {count : Nat} (page : count ≤ 256)
    : Fresh nextInPage cell count := by
  intro i j left right same
  rw [nextInPage_iterate, nextInPage_iterate] at same
  omega

/-- Blank cells take the bytes of a page program. -/
theorem programPage_blank {cells : Nat → UInt8} {cell : Nat} {data : List UInt8}
    (page : data.length ≤ 256) {k : Nat} {byte : UInt8} (sent : data[k]? = some byte)
    (blank : cells (nextInPage^[k] cell) = 0xFF)
    : programPage cells cell data (nextInPage^[k] cell) = byte := by
  rw [programPage, storeAll_at (nextInPage_fresh cell page) sent, blank]
  exact UInt8.neg_one_and

/-- Other pages keep what they hold. -/
theorem programPage_outside {cells : Nat → UInt8} {cell other : Nat} {data : List UInt8}
    (elsewhere : other / 256 ≠ cell / 256)
    : programPage cells cell data other = cells other := by
  refine storeAll_outside fun k _ same => elsewhere ?_
  rw [nextInPage_iterate] at same
  omega

/-- A page program behind the erase of its sector: the cells up to the end of the page read as
the bytes sent, and those behind it as the erase has left them.
-/
theorem programPage_erased (cells : Nat → UInt8) {cell : Nat} (inside : cell < 0x1000000)
    {data : List UInt8} (page : data.length ≤ 256) {k : Nat} (sent : k < data.length)
    : programPage (eraseSector cells cell) cell data (nextCell^[k] cell)
      = if cell % 256 + k < 256 then data[k] else eraseSector cells cell (nextCell^[k] cell) := by
  rw [nextCell_iterate k inside]
  split
  · rename_i here
    have place : (cell + k) % 0x1000000 = nextInPage^[k] cell := by
      rw [nextInPage_iterate]
      omega
    rw [place]
    refine programPage_blank page (List.getElem?_eq_getElem sent) (if_pos ?_)
    rw [nextInPage_iterate]
    omega
  · exact programPage_outside (by omega)

/-- So the bytes are read back exactly when those for behind the page lie there already. -/
theorem readBack_iff (cells : Nat → UInt8) {cell : Nat} (inside : cell < 0x1000000)
    {data : List UInt8} (page : data.length ≤ 256)
    : readAll nextCell (programPage (eraseSector cells cell) cell data) cell data.length = data
      ↔ ∀ k < data.length,
          256 ≤ cell % 256 + k
          → data[k]? = some (eraseSector cells cell ((cell + k) % 0x1000000)) := by
  rw [readAll_eq_iff]
  refine forall₂_congr fun k sent => ?_
  rw [programPage_erased cells inside page sent, List.getElem?_eq_getElem sent,
    Option.some.injEq, ← nextCell_iterate k inside]
  split
  · rename_i here
    exact iff_of_true rfl fun behind => absurd here (Nat.not_lt_of_le behind)
  · rename_i behind
    rw [forall_prop_of_true (Nat.le_of_not_lt behind), eq_comm]

/-- The erase reaches the whole sector and a byte for behind the page its start: every cell
but those of the bytes is kept exactly when each byte behind the page is what its cell at the
start of the page holds, and when no other cell of the sector holds anything but 0xFF.
-/
theorem kept_iff (cells : Nat → UInt8) {cell : Nat} (inside : cell < 0x1000000)
    {data : List UInt8} (page : data.length ≤ 256)
    : (∀ other < 0x1000000,
        (∀ k < data.length, other ≠ nextCell^[k] cell)
        → programPage (eraseSector cells cell) cell data other = cells other)
      ↔ (∀ k < data.length,
          256 ≤ cell % 256 + k → data[k]? = some (cells (cell + k - 256)))
        ∧ ∀ other,
            other / 4096 = cell / 4096
            → (∀ k < data.length, other ≠ nextCell^[k] cell)
            → (∀ k < data.length, other ≠ nextInPage^[k] cell)
            → cells other = 0xFF := by
  have erased {other : Nat} (sector : other / 4096 = cell / 4096)
      (unreached : ∀ k < data.length, other ≠ nextInPage^[k] cell)
      : programPage (eraseSector cells cell) cell data other = 0xFF := by
    refine (storeAll_outside fun k sent => (unreached k sent).symm).trans ?_
    exact if_pos sector
  have reached {k : Nat} (sent : k < data.length)
      : programPage (eraseSector cells cell) cell data (nextInPage^[k] cell) = data[k] := by
    refine programPage_blank page (List.getElem?_eq_getElem sent) (if_pos ?_)
    rw [nextInPage_iterate]
    omega
  constructor
  · refine fun kept => ⟨fun k sent behind => ?_, fun other sector outside unreached => ?_⟩
    · have place : nextInPage^[k] cell = cell + k - 256 := by
        rw [nextInPage_iterate]
        omega
      have same := kept (cell + k - 256) (by omega) fun j sentToo => by
        rw [nextCell_iterate j inside]
        omega
      rw [List.getElem?_eq_getElem sent, ← same, ← place, reached sent]
    · rw [← kept other (by omega) outside, erased sector unreached]
  · intro ⟨wrapped, blank⟩ other bound outside
    by_cases sector : other / 4096 = cell / 4096
    · by_cases unreached : ∀ k < data.length, other ≠ nextInPage^[k] cell
      · rw [erased sector unreached, blank other sector outside unreached]
      · push Not at unreached
        obtain ⟨k, sent, rfl⟩ := unreached
        have apart := outside k sent
        rw [nextCell_iterate k inside, nextInPage_iterate] at apart
        have place : nextInPage^[k] cell = cell + k - 256 := by
          rw [nextInPage_iterate]
          omega
        have byte := wrapped k sent (by omega)
        rw [List.getElem?_eq_getElem sent, Option.some.injEq] at byte
        rw [reached sent, byte, place]
    · rw [programPage_outside fun samePage => sector (by omega)]
      exact if_neg sector

-----------------------------------------------------------------------------------------
-- Programs against the chip
-----------------------------------------------------------------------------------------

/-- The chip between two commands. -/
structure Between (cells : Nat → UInt8) (enabled : Bool) (busy : Nat) (s : Chip) : Prop where
  cells : s.cells = cells
  selected : s.selected = false
  enabled : s.enabled = enabled
  busy : s.busy = busy

/-- The chip in a command of which it has received these bytes. -/
structure Amid (cells : Nat → UInt8) (enabled : Bool) (busy : Nat) (received : List UInt8)
    (s : Chip)
    : Prop where
  cells : s.cells = cells
  selected : s.selected = true
  enabled : s.enabled = enabled
  busy : s.busy = busy
  received : s.received = received

/-- A program against the chip. -/
abbrev Spec {ρ : Type} (timing : Timing) (pre : Chip → Prop)
    (program : Port.Program Action UInt8 ρ) (post : ρ → Chip → Prop)
    : Prop :=
  Port.Triple (chip timing) (fun _ _ => True) pre program post

variable {timing : Timing} {cells : Nat → UInt8} {enabled : Bool} {busy : Nat}
  {received : List UInt8}

/-- A specification is about every run from its precondition. -/
theorem Spec.holds {ρ : Type} {pre : Chip → Prop} {program : Port.Program Action UInt8 ρ}
    {post : ρ → Chip → Prop} (spec : Spec timing pre program post) {s : Chip} (start : pre s)
    : post (program.run (chip timing) s).1 (program.run (chip timing) s).2 := by
  have met := @Program.meets_of_invariant _ _ _ _ (chip timing) (fun _ _ => True)
    (fun _ => True) (fun _ _ _ => ⟨trivial, trivial⟩) program s trivial
  exact spec s start met.1

theorem Spec.select
    : Spec timing (Between cells enabled busy) (.emit (.select false))
        (fun _ => Amid cells enabled busy []) :=
  .emit fun _ here _ =>
    { cells := here.cells, selected := rfl, enabled := here.enabled, busy := here.busy,
      received := rfl }

/-- A byte of a command other than the status command. -/
theorem Spec.transfer (data : UInt8) (other : received.head? ≠ some READ_STATUS)
    : Spec timing (Amid cells enabled busy received) (.exchange (.transfer data))
        (fun _ => Amid cells enabled busy (received ++ [data])) := by
  refine .exchange fun s here _ => ?_
  simp only [chip, Chip.transfer, here.selected, here.received, if_true, if_neg other]
  exact { cells := here.cells, selected := rfl, enabled := here.enabled, busy := here.busy,
          received := rfl }

/-- A status shows whether the chip is busy. -/
theorem Spec.status (data : UInt8)
    : Spec timing (Amid cells enabled busy [READ_STATUS]) (.exchange (.transfer data))
        (fun status s =>
          (status &&& 1 ≠ 0 ↔ busy ≠ 0)
          ∧ Amid cells enabled (busy - 1) [READ_STATUS, data] s) := by
  refine .exchange fun s here _ => ?_
  have shown : s.answer = s.status := by
    rw [Chip.answer, here.received]
    rfl
  simp only [chip, Chip.transfer, here.selected, here.received, if_true, List.head?_cons, shown,
    here.busy]
  refine ⟨?_, { cells := here.cells, selected := rfl, enabled := here.enabled, busy := rfl,
                received := rfl }⟩
  rw [Chip.status, here.busy, here.enabled]
  by_cases idle : busy = 0
  · rw [if_pos idle]
    cases enabled <;> simp only [idle, ne_eq, not_true_eq_false, iff_false] <;> decide
  · rw [if_neg idle]
    cases enabled <;> simp only [idle, ne_eq, not_false_eq_true, iff_true] <;> decide

/-- A byte that an idle chip shifts out of its cells. -/
theorem Spec.receive (data high middle low : UInt8) (shifted : List UInt8)
    : Spec timing (Amid cells enabled 0 (READ :: high :: middle :: low :: shifted))
        (.exchange (.transfer data))
        (fun reply s =>
          reply = cells (nextCell^[shifted.length] (address high middle low))
          ∧ Amid cells enabled 0 (READ :: high :: middle :: low :: (shifted ++ [data])) s) := by
  refine .exchange fun s here _ => ?_
  have shown : s.answer = cells (nextCell^[shifted.length] (address high middle low)) := by
    simp only [Chip.answer, here.received, here.busy, here.cells, if_true]
    rfl
  simp only [chip, Chip.transfer, here.selected, here.received, if_true, shown]
  exact ⟨trivial, { cells := here.cells, selected := rfl, enabled := here.enabled,
                    busy := here.busy, received := rfl }⟩

/-- The end of a command leaves the cells, the latch and the time to wait of the chip that has
taken it.
-/
theorem Spec.deselect {after : Nat → UInt8} {latch : Bool} {readings : Nat}
    (taken
      : ∀ s,
          Amid cells enabled 0 received s
          → ∃ selected received reply,
              s.command timing = { cells := after, selected, received, enabled := latch,
                                   busy := readings, reply })
    : Spec timing (Amid cells enabled 0 received) (.emit (.select true))
        (fun _ => Between after latch readings) := by
  refine .emit fun s here _ => ?_
  obtain ⟨_, _, _, command⟩ := taken s here
  simp only [chip, Chip.select, if_true, here.busy, command]
  exact { cells := rfl, selected := rfl, enabled := rfl, busy := rfl }

theorem Spec.enable
    : Spec timing (Amid cells enabled 0 [WRITE_ENABLE]) (.emit (.select true))
        (fun _ => Between cells true 0) := by
  refine .deselect fun s here => ⟨s.selected, s.received, s.reply, ?_⟩
  rw [Chip.command, here.received, ← here.cells, ← here.busy]
  rfl

theorem Spec.erase (high middle low : UInt8)
    : Spec timing (Amid cells true 0 [SECTOR_ERASE, high, middle, low]) (.emit (.select true))
        (fun _ => Between (eraseSector cells (address high middle low)) false timing.erase) := by
  refine .deselect fun s here => ⟨s.selected, s.received, s.reply, ?_⟩
  rw [Chip.command, here.received, ← here.cells]
  exact if_pos here.enabled

/-- A page program with at least one byte. -/
theorem Spec.program (high middle low first : UInt8) (rest : List UInt8)
    : Spec timing (Amid cells true 0 (PAGE_PROGRAM :: high :: middle :: low :: first :: rest))
        (.emit (.select true))
        (fun _ =>
          Between (programPage cells (address high middle low) (first :: rest)) false
            timing.program) := by
  refine .deselect fun s here => ⟨s.selected, s.received, s.reply, ?_⟩
  rw [Chip.command, here.received, ← here.cells]
  exact if_pos here.enabled

/-- The end of a command that leaves the chip as it is. -/
theorem Spec.ignored (none : ∀ s : Chip, s.received = received → s.command timing = s)
    : Spec timing (Amid cells enabled busy received) (.emit (.select true))
        (fun _ => Between cells enabled busy) := by
  refine .emit fun s here _ => ?_
  simp only [chip, Chip.select, if_true, none s here.received, ite_self]
  exact { cells := here.cells, selected := rfl, enabled := here.enabled, busy := here.busy }

/-- A page program without bytes is not taken. -/
theorem Chip.command_empty {s : Chip} {high middle low : UInt8}
    (ended : s.received = [PAGE_PROGRAM, high, middle, low])
    : s.command timing = s := by
  rw [Chip.command, ended]
  rfl

/-- A read changes nothing. -/
theorem Chip.command_read {s : Chip} {high middle low : UInt8} {shifted : List UInt8}
    (ended : s.received = READ :: high :: middle :: low :: shifted)
    : s.command timing = s := by
  rw [Chip.command, ended]
  cases shifted <;> rfl

/-- Nor does a status. -/
theorem Chip.command_status {s : Chip} {data : UInt8} (ended : s.received = [READ_STATUS, data])
    : s.command timing = s := by
  rw [Chip.command, ended]
  rfl

end SerialFlash
