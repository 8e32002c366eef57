import At32.Lib.LittleEndian
import At32.Lib.Waveform
import Mathlib.Algebra.BigOperators.Group.Finset.Basic
import Mathlib.Algebra.Order.Ring.Nat

/-! The bits of the virtual UART: what the sender puts on the line, and when the receiver samples
it.
-/

namespace At32.VirtualUart

open LittleEndian (forall_byte)
open Waveform

/-- uart_delayus and uart_delayus_again -/
structure Delays where
  uartDelayus : UInt32
  uartDelayusAgain : UInt32
  deriving DecidableEq, Repr

/-- The delays that uart_virtual sets for a delay of a bit. -/
def delaysOf (uartDelayus : UInt32) : Delays :=
  { uartDelayus, uartDelayusAgain := uartDelayus / 2 }

/-- virtual_serial: the levels that it writes, each with the delay behind it. -/
def virtualSerial (delays : Delays) (data : UInt16) : List (Bool × Nat) :=
  let data := data &&& 0xff
  let data := data ||| (1 : UInt16) <<< 8
  let data := data <<< 1
  (List.range 10).map fun i =>
    (decide ((data >>> UInt16.ofNat i) &&& 0x01 ≠ 0), (delays.uartDelayus - 1).toNat)

/-- What the receiver needs around the reading of a bit. -/
structure Overhead where
  before : Nat
  after : Nat
  deriving DecidableEq, Repr

/-- One pass of uart_recvive_data, for the time and the data so far. -/
def receiveBit (delays : Delays) (line : Nat → Bool) (overhead : Nat → Overhead)
    (s : Nat × UInt8) (i : Nat)
    : Nat × UInt8 :=
  let time := s.1 + (delays.uartDelayus - 1).toNat + (overhead i).before
  (time + (overhead i).after, s.2 ||| (if line time then 1 else 0) <<< UInt8.ofNat i)

/-- uart_recvive_data, which starts at a time. -/
def uartRecviveData (delays : Delays) (line : Nat → Bool) (overhead : Nat → Overhead)
    (start : Nat)
    : UInt8 :=
  let time := start + delays.uartDelayusAgain.toNat
  ((List.range 8).foldl (receiveBit delays line overhead) (time, 0)).2

-----------------------------------------------------------------------------------------
-- Cells
-----------------------------------------------------------------------------------------

/-- The bits of a frame: a start bit, the byte from its lowest bit on, a stop bit. -/
def frameBits (b : UInt8) : List Bool :=
  false :: (List.range 8).map (fun i => b.toNat.testBit i) ++ [true]

theorem virtualSerial_eq (delays : Delays) (b : UInt8)
    : virtualSerial delays b.toUInt16
      = (frameBits b).map fun value => (value, (delays.uartDelayus - 1).toNat) := by
  have bits : ∀ b : UInt8,
      ((List.range 10).map fun i =>
        decide ((((((b.toUInt16 &&& (0xff : UInt16)) ||| (1 : UInt16) <<< 8) <<< 1)
          >>> UInt16.ofNat i) &&& (0x01 : UInt16)) ≠ 0))
      = frameBits b :=
    forall_byte (by decide +kernel)
  rw [← bits, List.map_map]
  rfl

/-- The byte that the bits give, one after the other. -/
theorem assemble_bits
    : ∀ b : UInt8,
        (List.range 8).foldl
            (fun data i =>
              data ||| (if b.toNat.testBit i then (1 : UInt8) else 0) <<< UInt8.ofNat i) 0
          = b :=
  forall_byte (by decide +kernel)

theorem frameBits_data (b : UInt8) {i : Nat} (inside : i < 8)
    : (frameBits b)[i + 1]? = some (b.toNat.testBit i) := by
  rw [frameBits, List.cons_append, List.getElem?_cons_succ, List.getElem?_append_left (by
    rw [List.length_map, List.length_range]
    exact inside), List.getElem?_map, List.getElem?_range inside]
  rfl

-----------------------------------------------------------------------------------------
-- Samples
-----------------------------------------------------------------------------------------

/-- What the receiver has needed for the first bits. -/
def needed (overhead : Nat → Overhead) (bits : Nat) : Nat :=
  ∑ i ∈ Finset.range bits, ((overhead i).before + (overhead i).after)

theorem needed_succ (overhead : Nat → Overhead) (bits : Nat)
    : needed overhead (bits + 1)
      = needed overhead bits + ((overhead bits).before + (overhead bits).after) :=
  Finset.sum_range_succ _ _

theorem needed_le (overhead : Nat → Overhead) {bits all : Nat} (part : bits ≤ all)
    : needed overhead bits ≤ needed overhead all := by
  induction part with
  | refl => exact Nat.le_refl _
  | step _ ih =>
      rw [needed_succ]
      exact Nat.le_trans ih (Nat.le_add_right _ _)

/-- The passes of the receiver: each reads the cell of its bit; by induction on the passes. -/
theorem foldl_receiveBit {delays : Delays} {b : UInt8} {overhead : Nat → Overhead} {time : Nat}
    (margin : time + needed overhead 8 < (delays.uartDelayus - 1).toNat) {bits : Nat}
    (inside : bits ≤ 8)
    : (List.range bits).foldl
        (receiveBit delays (levelAt true (virtualSerial delays b.toUInt16)) overhead) (time, 0)
      = (time + bits * (delays.uartDelayus - 1).toNat + needed overhead bits,
        (List.range bits).foldl
          (fun data i =>
            data ||| (if b.toNat.testBit i then (1 : UInt8) else 0) <<< UInt8.ofNat i) 0) := by
  induction bits with
  | zero => simp [needed]
  | succ bits ih =>
      have part := needed_le overhead inside
      have next := needed_succ overhead bits
      rw [List.range_succ, List.foldl_append, List.foldl_append, ih (Nat.le_of_succ_le inside),
        List.foldl_cons, List.foldl_cons, List.foldl_nil, List.foldl_nil, receiveBit]
      have sample : time + bits * (delays.uartDelayus - 1).toNat + needed overhead bits
            + (delays.uartDelayus - 1).toNat + (overhead bits).before
          = (bits + 1) * (delays.uartDelayus - 1).toNat
            + (time + needed overhead bits + (overhead bits).before) := by
        rw [Nat.succ_mul]
        omega
      have early : time + needed overhead bits + (overhead bits).before
          < (delays.uartDelayus - 1).toNat := by
        omega
      have level := levelAt_cell early true (frameBits_data b (Nat.lt_of_succ_le inside))
      rw [← virtualSerial_eq, ← sample] at level
      simp only [level]
      refine Prod.ext ?_ rfl
      simp only [next, Nat.succ_mul]
      omega

/-- A receiver that starts early enough behind the edge of the start bit, and needs little enough
time around its readings, receives the byte that is sent.
-/
theorem uartRecviveData_virtualSerial (uartDelayus : UInt32) (bounded : 3 ≤ uartDelayus)
    (b : UInt8) (latency : Nat) (overhead : Nat → Overhead)
    (margin
      : latency + (uartDelayus / 2).toNat + needed overhead 8 < uartDelayus.toNat - 1)
    : uartRecviveData (delaysOf uartDelayus)
        (levelAt true (virtualSerial (delaysOf uartDelayus) b.toUInt16)) overhead latency
      = b := by
  have cell : (uartDelayus - 1).toNat = uartDelayus.toNat - 1 :=
    UInt32.toNat_sub_of_le _ _ (UInt32.le_trans (by decide) bounded)
  have passes := @foldl_receiveBit (delaysOf uartDelayus) b overhead
    (latency + (uartDelayus / 2).toNat) (by rw [delaysOf, cell]; exact margin) 8 (Nat.le_refl 8)
  rw [assemble_bits] at passes
  exact congrArg Prod.snd passes

theorem uartRecviveData_virtualSerial_nine
    : uartRecviveData (delaysOf 9)
        (levelAt true (virtualSerial (delaysOf 9) (0x5a : UInt8).toUInt16))
        (fun i => if i = 0 then { before := 1, after := 1 } else { before := 0, after := 0 }) 1
      = 0x5a :=
  uartRecviveData_virtualSerial 9 (by decide) 0x5a 1
    (fun i => if i = 0 then { before := 1, after := 1 } else { before := 0, after := 0 })
    (by decide)

end At32.VirtualUart
