import At32.Lib.LittleEndian
import At32.Lib.Polling
import At32.Lib.Waveform
import Mathlib.Data.List.Forall2

/-! The TSIC506 temperature sensor: the nine bit cells of a byte and its parity on the line, and
what is read of them.
-/

namespace At32.Tsic506

open LittleEndian (forall_byte)
open Polling Waveform

/-- What is used here of tsic_oper_t. -/
structure TsicOper (σ : Type) where
  tsicDelayus : UInt32 → σ → σ
  tsicDataOutput : σ → UInt8 × σ

section Reading

variable {σ : Type} (tsicOper : TsicOper σ) (printf : String → σ → σ)

/-- The source has both sides of a merge here: the other side returns the same and does not print.
-/
def waitEdgeTrigger (status : UInt8) (s : σ) : UInt8 × σ :=
  let (_, i, s) := wait tsicOper.tsicDataOutput (tsicOper.tsicDelayus 1) (· = status) 10000 s
  if i = 0 then (2, printf "      timeout      error\r\n" s) else (0, s)

/-- A pass of the loop of tsic_data over the bits; none where it returns 2. -/
def tsicBit (i : Nat) (temp : UInt16) (s : σ) : Option UInt16 × σ :=
  let (failed, s) := waitEdgeTrigger tsicOper printf 1 s
  if failed ≠ 0 then (none, s)
  else
    let s := tsicOper.tsicDelayus 50 s
    let (level, s) := tsicOper.tsicDataOutput s
    if level ≠ 0 then (some (temp ||| 1 <<< UInt16.ofNat (8 - i)), s)
    -- without a look at what it returns
    else (some temp, (waitEdgeTrigger tsicOper printf 0 s).2)

def tsicBits : List Nat → UInt16 → σ → Option UInt16 × σ
  | [], temp, s => (some temp, s)
  | i :: rest, temp, s =>
      match tsicBit tsicOper printf i temp s with
      | (none, s) => (none, s)
      | (some temp, s) => tsicBits rest temp s

/-- The loop of tsic_data that counts the ones. -/
def tsicCheck (temp : UInt16) : UInt8 :=
  (List.range 9).foldl
    (fun check i => if temp &&& 1 <<< UInt16.ofNat i ≠ 0 then check + 1 else check) 0

/-- What tsic_data returns, and val behind it. -/
def tsicData (val : UInt8) (s : σ) : UInt16 × UInt8 × σ :=
  match tsicBits tsicOper printf (List.range 9) 0 s with
  | (none, s) => (2, val, s)
  | (some temp, s) =>
      if tsicCheck temp % 2 ≠ 0 then (1, val, s) else (0, (temp >>> 1).toUInt8, s)

end Reading

-----------------------------------------------------------------------------------------
-- A line over time
-----------------------------------------------------------------------------------------

/-- Readings of a line that take no time, and delays that are exact; the state is the time in
microseconds.
-/
def lineOper (line : Nat → Bool) : TsicOper Nat :=
  {
    tsicDelayus := fun num time => time + num.toNat
    tsicDataOutput := fun time => (if line time then 1 else 0, time)
  }

/-- A bit cell: how long the line is low in it, and how long high then. -/
structure Cell where
  low : Nat
  high : Nat
  deriving DecidableEq, Repr

/-- The phases of a cell are between 1 and 9999 us long. The cell of a one is longer than 50 us, and
low for at most 50 us; the cell of a zero is low for longer than that.
-/
structure Carries (bit : Bool) (cell : Cell) : Prop where
  low : 1 ≤ cell.low ∧ cell.low ≤ 9999
  high : 1 ≤ cell.high ∧ cell.high ≤ 9999
  bit : if bit then cell.low ≤ 50 ∧ 50 < cell.low + cell.high else 50 < cell.low

/-- The levels of cells, one after the other. -/
def phases (cells : List Cell) : List (Bool × Nat) :=
  cells.flatMap fun cell => [(false, cell.low), (true, cell.high)]

/-- The bits of a byte from its highest one on, and a parity bit. -/
def sentBits (b : UInt8) (p : Bool) : List Bool :=
  (List.range 8).map (fun i => b.toNat.testBit (7 - i)) ++ [p]

-----------------------------------------------------------------------------------------
-- One cell
-----------------------------------------------------------------------------------------

section Line

variable {line : Nat → Bool} {time : Nat} {printf : String → Nat → Nat}

theorem before_lineOper (line : Nat → Bool) (n time : Nat)
    : before (lineOper line).tsicDataOutput ((lineOper line).tsicDelayus 1) n time
      = time + n := by
  induction n generalizing time with
  | zero => rfl
  | succ n ih =>
      rw [before, ih]
      exact Nat.add_right_comm time 1 n

/-- The wait for a level to end: it ends with the level, if that is soon enough. -/
theorem waitEdgeTrigger_edge {status : Bool} {held : Nat} (soon : held < 10000)
    (waiting : ∀ k < held, line (time + k) = status) (edge : line (time + held) ≠ status)
    : waitEdgeTrigger (lineOper line) printf (if status then 1 else 0) time
      = (0, time + held) := by
  have level (k : Nat)
      : polled (lineOper line).tsicDataOutput ((lineOper line).tsicDelayus 1) k time
        = if line (time + k) then 1 else 0 := by
    rw [polled, before_lineOper]
    rfl
  have last : LastPoll (lineOper line).tsicDataOutput ((lineOper line).tsicDelayus 1)
      (· = if status then 1 else 0) 10000 held time :=
    {
      within := Nat.le_of_lt soon
      waiting := fun k early => by rw [level, waiting k early]
      last := .inr (by
        rw [level]
        cases status <;> simp_all)
    }
  have left : 10000 - held ≠ 0 := Nat.sub_ne_zero_of_lt soon
  simp only [waitEdgeTrigger, last.wait_eq, if_neg left, before_lineOper]
  rfl

/-- The wait for the high level before a cell to end. -/
theorem waitEdgeTrigger_cell {cell : Cell} (begun : 0 < cell.low) {level : Bool} {held : Nat}
    (soon : held < 10000) {rest : List (Bool × Nat)}
    (shown : Shows line time level ((true, held) :: phases [cell] ++ rest))
    : waitEdgeTrigger (lineOper line) printf 1 time = (0, time + held) := by
  refine @waitEdgeTrigger_edge _ _ _ true held soon (fun k early => shown.inside early) ?_
  have edge := shown.behind.inside begun
  rw [Nat.add_zero] at edge
  rw [edge]
  exact Bool.false_ne_true

theorem tsicBit_high {edge : Nat}
    (first : waitEdgeTrigger (lineOper line) printf 1 time = (0, edge))
    (sample : line (edge + 50) = true) (i : Nat) (temp : UInt16)
    : tsicBit (lineOper line) printf i temp time
      = (some (temp ||| 1 <<< UInt16.ofNat (8 - i)), edge + 50) := by
  have read : (lineOper line).tsicDataOutput ((lineOper line).tsicDelayus 50 edge)
      = (1, edge + 50) :=
    Prod.ext (if_pos sample) rfl
  simp only [tsicBit, first, read]
  rfl

theorem tsicBit_low {edge : Nat}
    (first : waitEdgeTrigger (lineOper line) printf 1 time = (0, edge))
    (sample : line (edge + 50) = false) (i : Nat) (temp : UInt16)
    : tsicBit (lineOper line) printf i temp time
      = (some temp, (waitEdgeTrigger (lineOper line) printf 0 (edge + 50)).2) := by
  have read : (lineOper line).tsicDataOutput ((lineOper line).tsicDelayus 50 edge)
      = (0, edge + 50) :=
    Prod.ext (if_neg (Bool.not_eq_true _ ▸ sample)) rfl
  simp only [tsicBit, first, read]
  rfl

/-- A pass over the cell of a bit: it begins on the high level before the cell, and ends on the
high level of the cell.
-/
theorem tsicBit_cell {bit : Bool} {cell : Cell} (carries : Carries bit cell) {level : Bool}
    {held : Nat} (soon : held < 10000) {rest : List (Bool × Nat)}
    (shown : Shows line time level ((true, held) :: phases [cell] ++ rest)) (i : Nat)
    (temp : UInt16)
    : ∃ next left,
        tsicBit (lineOper line) printf i temp time
            = (some (if bit then temp ||| 1 <<< UInt16.ofNat (8 - i) else temp), next)
        ∧ left < 10000
        ∧ Shows line next true ((true, left) :: rest) := by
  have ⟨begun, lowLong⟩ := carries.low
  have ⟨highBegun, highLong⟩ := carries.high
  have first := @waitEdgeTrigger_cell line time printf cell begun level held soon rest shown
  have low : Shows line (time + held) true ((false, cell.low) :: (true, cell.high) :: rest) :=
    shown.behind
  have high : Shows line (time + held + cell.low) false ((true, cell.high) :: rest) := low.behind
  cases bit with
  | true =>
      obtain ⟨short, long⟩ := carries.bit
      have place : time + held + 50 = time + held + cell.low + (50 - cell.low) := by omega
      have sample : line (time + held + 50) = true := by
        rw [place]
        exact high.inside (by omega)
      refine ⟨time + held + 50, cell.high - (50 - cell.low), tsicBit_high first sample i temp,
        by omega, ?_⟩
      rw [place]
      exact high.within (by omega)
  | false =>
      have long : 50 < cell.low := carries.bit
      have sample : line (time + held + 50) = false := low.inside long
      have left := low.within (Nat.le_of_lt long)
      have edge := left.behind.inside highBegun
      have second
          : waitEdgeTrigger (lineOper line) printf 0 (time + held + 50)
            = (0, time + held + 50 + (cell.low - 50)) := by
        refine @waitEdgeTrigger_edge _ _ _ false (cell.low - 50) (by omega)
          (fun k early => left.inside early) ?_
        rw [Nat.add_zero] at edge
        rw [edge]
        exact Bool.false_ne_true.symm
      refine ⟨time + held + 50 + (cell.low - 50), cell.high, ?_, by omega, left.behind⟩
      rw [tsicBit_low first sample i temp, second]
      rfl

-----------------------------------------------------------------------------------------
-- All cells
-----------------------------------------------------------------------------------------

/-- The word that the bits with these numbers give, one after the other. -/
def assemble (numbered : List (Nat × Bool)) (temp : UInt16) : UInt16 :=
  numbered.foldl
    (fun temp pass => if pass.2 then temp ||| 1 <<< UInt16.ofNat (8 - pass.1) else temp) temp

/-- The passes over the cells of bits; by induction on the bits. -/
theorem tsicBits_cells {bits : List Bool} {cells : List Cell}
    (carried : List.Forall₂ Carries bits cells) {numbers : List Nat}
    (numbered : numbers.length = bits.length) {level : Bool} {held : Nat} (soon : held < 10000)
    {rest : List (Bool × Nat)}
    (shown : Shows line time level ((true, held) :: phases cells ++ rest)) (temp : UInt16)
    : (tsicBits (lineOper line) printf numbers temp time).1
      = some (assemble (numbers.zip bits) temp) := by
  induction carried generalizing numbers time level held temp with
  | nil =>
      obtain rfl := List.length_eq_zero_iff.mp numbered
      rfl
  | @cons bit cell bits cells carries _ ih =>
      obtain ⟨i, numbers, rfl⟩ := List.exists_cons_of_length_eq_add_one numbered
      have whole : (true, held) :: phases (cell :: cells) ++ rest
          = (true, held) :: phases [cell] ++ (phases cells ++ rest) := rfl
      rw [whole] at shown
      obtain ⟨next, left, passed, soonNext, shownNext⟩ :=
        @tsicBit_cell line time printf bit cell carries level held soon _ shown i temp
      have later := @ih next numbers (Nat.succ.inj numbered) true left soonNext shownNext
        (if bit then temp ||| 1 <<< UInt16.ofNat (8 - i) else temp)
      rw [tsicBits, passed]
      exact later

end Line

-----------------------------------------------------------------------------------------
-- A byte and its parity
-----------------------------------------------------------------------------------------

/-- What is assembled of the bits of a byte: the byte over the parity bit, and the parity of the
ones.
-/
theorem assemble_sentBits (p : Bool)
    : ∀ b : UInt8,
        (assemble ((List.range 9).zip (sentBits b p)) 0 >>> 1).toUInt8 = b
        ∧ (tsicCheck (assemble ((List.range 9).zip (sentBits b p)) 0) % 2 = 0
          ↔ (sentBits b p).count true % 2 = 0) := by
  cases p with
  | false => exact forall_byte (by decide +kernel)
  | true => exact forall_byte (by decide +kernel)

/-- For every byte and parity bit in cells of any lengths: with an even number of ones tsic_data
returns 0 and stores the byte, else it returns 1 and stores nothing.
-/
theorem tsicData_decodes (printf : String → Nat → Nat) (b : UInt8) (p : Bool) (val : UInt8)
    (lead : Nat) (soon : lead < 10000) (cells : List Cell)
    (carried : List.Forall₂ Carries (sentBits b p) cells) (line : Nat → Bool) (start : Nat)
    (level : Bool) (later : List (Bool × Nat))
    (shown : Shows line start level ((true, lead) :: phases cells ++ later))
    : let returned := tsicData (lineOper line) printf val start
      if (sentBits b p).count true % 2 = 0 then returned.1 = 0 ∧ returned.2.1 = b
      else returned.1 = 1 ∧ returned.2.1 = val := by
  have length : (List.range 9).length = (sentBits b p).length := rfl
  have read :=
    @tsicBits_cells line start printf _ _ carried _ length level lead soon later shown 0
  obtain ⟨byte, parity⟩ := assemble_sentBits p b
  rcases passes : tsicBits (lineOper line) printf (List.range 9) 0 start with ⟨temp, last⟩
  rw [passes] at read
  obtain rfl := read
  simp only [tsicData, passes]
  by_cases even : (sentBits b p).count true % 2 = 0
  · rw [if_pos even, if_neg (not_not_intro (parity.mpr even))]
    exact ⟨rfl, byte⟩
  · rw [if_neg even, if_pos (mt parity.mp even)]
    exact ⟨rfl, rfl⟩

/-- Cells of 125 us, a quarter or three quarters of them low. -/
def nominal (bit : Bool) : Cell :=
  if bit then { low := 31, high := 94 } else { low := 94, high := 31 }

theorem carries_nominal (bit : Bool) : Carries bit (nominal bit) := by
  cases bit <;> constructor <;> decide

/-- A byte in such cells, 200 us behind the call. -/
def nominalWave (b : UInt8) (p : Bool) : List (Bool × Nat) :=
  (true, 200) :: phases ((sentBits b p).map nominal) ++ []

theorem tsicData_decodes_nominal
    : let returned :=
        tsicData (lineOper (levelAt true (nominalWave 0x5a false))) (fun _ time => time) 0 0
      if (sentBits 0x5a false).count true % 2 = 0 then returned.1 = 0 ∧ returned.2.1 = 0x5a
      else returned.1 = 1 ∧ returned.2.1 = 0 :=
  tsicData_decodes (fun _ time => time) 0x5a false 0 200 (by decide)
    ((sentBits 0x5a false).map nominal)
    (List.forall₂_map_right_iff.mpr
      (List.forall₂_same.mpr fun bit _ => carries_nominal bit))
    _ 0 true [] (shows_levelAt true (nominalWave 0x5a false))

end At32.Tsic506
