import At32.Lib.BitField

/-! The external interrupt lines: their enable and edge bits, and the pending register, where a
bit is cleared by writing one to it.
-/

namespace At32.Exti

open BitField

/-- EXTI_MODE -/
inductive ExtiMode
  | interrupt
  | event
  deriving DecidableEq, Repr

/-- TRIGGER_MODE -/
inductive TriggerMode
  | failling
  | rising
  | faillingAndRising
  deriving DecidableEq, Repr

structure Registers where
  inten : BitVec 32
  evten : BitVec 32
  rtrsel : BitVec 32
  ftrsel : BitVec 32
  pnd : BitVec 32
  deriving DecidableEq, Repr

/-- Exti_Init, for a line below 32. -/
def extiInit (line : Nat) (mode : ExtiMode) (trigger : TriggerMode) (newStatus : Bool)
    (s : Registers)
    : Registers :=
  if newStatus then
    let s : Registers :=
      match mode with
      | .event => { s with evten := s.evten ||| 1#32 <<< line }
      | .interrupt => { s with inten := s.inten ||| 1#32 <<< line }
    match trigger with
    | .failling => { s with ftrsel := s.ftrsel ||| 1#32 <<< line }
    | .rising => { s with rtrsel := s.rtrsel ||| 1#32 <<< line }
    | .faillingAndRising =>
        { s with
          ftrsel := s.ftrsel ||| 1#32 <<< line
          rtrsel := s.rtrsel ||| 1#32 <<< line }
  else
    match mode with
    | .event => { s with evten := s.evten &&& ~~~(1#32 <<< line) }
    | .interrupt => { s with inten := s.inten &&& ~~~(1#32 <<< line) }

/-- Get_ExtiInter: the mask is joined to the register. -/
def getExtiInter (line : Nat) (pnd : BitVec 32) : Bool := pnd ||| 0x02#32 <<< line ≠ 0

/-- A write to PND clears the bits that are one in it. -/
def writePnd (value pnd : BitVec 32) : BitVec 32 := pnd &&& ~~~value

/-- Clean_ExtiInter: what the register shows is written back with the mask. -/
def cleanExtiInter (line : Nat) (pnd : BitVec 32) : BitVec 32 :=
  writePnd (pnd ||| 0x02#32 <<< line) pnd

-----------------------------------------------------------------------------------------
-- Pending lines
-----------------------------------------------------------------------------------------

/-- Every line up to 15 shows as pending. -/
theorem getExtiInter_eq {line : Nat} (inside : line ≤ 15) (pnd : BitVec 32)
    : getExtiInter line pnd = true := by
  refine decide_eq_true fun none => ?_
  have bit : (pnd ||| 0x02#32 <<< line).getLsbD (line + 1) = true := by
    rw [BitVec.getLsbD_or, BitVec.getLsbD_shiftLeft, Nat.add_sub_cancel_left]
    have width : line + 1 < 32 := by omega
    have notBelow : ¬line + 1 < line := by omega
    simp [width, notBelow]
  rw [none] at bit
  exact absurd bit (by simp)

/-- No line stays pending. -/
theorem cleanExtiInter_eq (line : Nat) (pnd : BitVec 32) : cleanExtiInter line pnd = 0 := by
  refine BitVec.eq_of_getLsbD_eq fun i inside => ?_
  rw [cleanExtiInter, writePnd, BitVec.getLsbD_and, BitVec.getLsbD_not, BitVec.getLsbD_or]
  cases pnd.getLsbD i <;> simp

-----------------------------------------------------------------------------------------
-- The configuration of a line
-----------------------------------------------------------------------------------------

/-- The configuration bits of a line. -/
structure Line where
  inten : Bool
  evten : Bool
  rtrsel : Bool
  ftrsel : Bool
  deriving DecidableEq, Repr

def Registers.line (s : Registers) (line : Nat) : Line :=
  {
    inten := s.inten.getLsbD line
    evten := s.evten.getLsbD line
    rtrsel := s.rtrsel.getLsbD line
    ftrsel := s.ftrsel.getLsbD line
  }

def TriggerMode.rises : TriggerMode → Bool
  | .failling => false
  | _ => true

def TriggerMode.falls : TriggerMode → Bool
  | .rising => false
  | _ => true

/-- What Exti_Init makes of the bits of its line. -/
def Line.init (bits : Line) (mode : ExtiMode) (trigger : TriggerMode) (newStatus : Bool)
    : Line :=
  {
    inten := if mode = .interrupt then newStatus else bits.inten
    evten := if mode = .event then newStatus else bits.evten
    rtrsel := bits.rtrsel || newStatus && trigger.rises
    ftrsel := bits.ftrsel || newStatus && trigger.falls
  }

/-- Exti_Init changes the bits of its line only. -/
theorem extiInit_line {line : Nat} (inside : line < 32) (mode : ExtiMode)
    (trigger : TriggerMode) (newStatus : Bool) (s : Registers) (other : Nat)
    : (extiInit line mode trigger newStatus s).line other
      = if other = line then (s.line line).init mode trigger newStatus else s.line other := by
  cases newStatus <;> cases mode <;> cases trigger <;>
    simp only [extiInit, Registers.line, getLsbD_set _ inside, getLsbD_clear _ inside,
      if_true, Bool.false_eq_true, if_false] <;>
    by_cases same : other = line <;>
    simp [same, Line.init, TriggerMode.rises, TriggerMode.falls]

end At32.Exti
