import At32.Drivers.Exti
import At32.Drivers.Gpio
import At32.Drivers.Nvic

/-! The pin interrupts of the device layer: the table of attached handlers, what enabling an
interrupt writes, and which handlers the shared interrupts call.
-/

namespace At32.PinIrq

open BitField Exti
open Gpio (HwGpio gpioInit afioInit)
open Nvic (nvicInit)

abbrev RT_EOK : Nat := 0
abbrev RT_ENOSYS : Nat := 6
abbrev RT_EBUSY : Nat := 7

@[match_pattern] abbrev PIN_IRQ_MODE_RISING : UInt16 := 0x00
@[match_pattern] abbrev PIN_IRQ_MODE_FALLING : UInt16 := 0x01
@[match_pattern] abbrev PIN_IRQ_MODE_RISING_FALLING : UInt16 := 0x02

/-- An entry of pin_irq_hdr_tab; a handler and its argument are addresses. -/
structure PinIrqHdr where
  pin : Int
  mode : UInt16
  hdr : UInt32
  args : UInt32
  deriving DecidableEq, Repr

/-- An entry that nothing is attached to. -/
def PinIrqHdr.none : PinIrqHdr := { pin := -1, mode := 0, hdr := 0, args := 0 }

/-- The registers that the layer writes, and its table. -/
structure Board where
  gpio : Gpio.Board
  exti : Exti.Registers
  nvic : Nvic.Registers
  tab : Nat → PinIrqHdr

/-- at32_pin_attach_irq, for a pin that is not negative. -/
def at32PinAttachIrq (pin : Nat) (mode hdr args : UInt32) (s : Board) : Nat × Board :=
  let pin := pin % 16
  let entry := s.tab pin
  if entry.pin = pin ∧ entry.hdr = hdr ∧ entry.mode.toUInt32 = mode ∧ entry.args = args then
    (RT_EOK, s)
  else if entry.pin ≠ -1 then
    (RT_EBUSY, s)
  else
    (RT_EOK,
      { s with tab := Function.update s.tab pin { pin, mode := mode.toUInt16, hdr, args } })

/-- at32_pin_dettach_irq -/
def at32PinDettachIrq (pin : Nat) (s : Board) : Nat × Board :=
  let pin := pin % 16
  if (s.tab pin).pin = -1 then (RT_EOK, s)
  else (RT_EOK, { s with tab := Function.update s.tab pin .none })

/-- The first switch of at32_pin_irq_enable; other modes leave the edge at its initial zero. -/
def triggerMode (mode : UInt16) : TriggerMode :=
  match mode with
  | PIN_IRQ_MODE_RISING => .rising
  | PIN_IRQ_MODE_FALLING => .failling
  | PIN_IRQ_MODE_RISING_FALLING => .faillingAndRising
  | _ => .failling

/-- The second switch of at32_pin_irq_enable. -/
def nvicIrqChannel (pin : Nat) : UInt8 :=
  match pin with
  | 0 => 6
  | 1 => 7
  | 2 => 8
  | 3 => 9
  | 4 => 10
  | 5 | 6 | 7 | 8 | 9 => 23
  | 10 | 11 | 12 | 13 | 14 | 15 => 40
  | _ => 0

/-- at32_pin_irq_enable, for the pin (pin) of a port, whose number in the device layer is 16
times that of the port and the pin. It is the number of the port that goes to Exti_Init.
-/
def at32PinIrqEnable (gpiox : HwGpio) (pin : Nat) (enabled : Bool) (s : Board) : Nat × Board :=
  if (s.tab pin).pin = -1 then
    (RT_ENOSYS, s)
  else
    let gpio := gpioInit gpiox pin .inFloating s.gpio
    let gpio := afioInit gpiox pin gpio
    let exti :=
      extiInit gpiox.bits.toNat .interrupt (triggerMode (s.tab pin).mode) enabled s.exti
    let nvic := nvicInit (nvicIrqChannel pin) 3 2 enabled s.nvic
    (RT_EOK, { s with gpio, exti, nvic })

-----------------------------------------------------------------------------------------
-- The interrupts
-----------------------------------------------------------------------------------------

/-- The pending register, and the lines whose handler has been called. -/
structure Irq where
  pnd : BitVec 32
  called : List Nat
  deriving DecidableEq, Repr

def attached (tab : Nat → PinIrqHdr) (line : Nat) : Bool := (tab line).hdr != 0

/-- pin_irq_hdr -/
def pinIrqHdr (tab : Nat → PinIrqHdr) (irqno : Nat) (s : Irq) : Irq :=
  {
    pnd := cleanExtiInter irqno s.pnd
    called := if attached tab irqno then s.called ++ [irqno] else s.called
  }

def gpioExtiIrqHandler (tab : Nat → PinIrqHdr) (gpioPin : Nat) (s : Irq) : Irq :=
  pinIrqHdr tab gpioPin s

/-- One test of a shared interrupt. -/
def testLine (tab : Nat → PinIrqHdr) (s : Irq) (line : Nat) : Irq :=
  if getExtiInter line s.pnd then gpioExtiIrqHandler tab line s else s

def lines95 : List Nat := [5, 6, 7, 8, 9]

def lines1510 : List Nat := [10, 11, 12, 13, 14, 15]

def exti95IrqHandler (tab : Nat → PinIrqHdr) (s : Irq) : Irq := lines95.foldl (testLine tab) s

def exti1510IrqHandler (tab : Nat → PinIrqHdr) (s : Irq) : Irq :=
  lines1510.foldl (testLine tab) s

/-- The handlers of the pending lines of a range have been called, and these lines alone are
no longer pending.
-/
structure Dispatched (tab : Nat → PinIrqHdr) (range : List Nat) (pnd : BitVec 32) (after : Irq)
    : Prop where
  called : after.called = range.filter fun line => pnd.getLsbD line && attached tab line
  left : ∀ line < 32, after.pnd.getLsbD line = (pnd.getLsbD line && !range.contains line)

/-- Every line of a range with a handler is pending, and no other line is. -/
structure AllPending (tab : Nat → PinIrqHdr) (range : List Nat) (pnd : BitVec 32) : Prop where
  handled : ∀ line ∈ range, attached tab line → pnd.getLsbD line = true
  others : ∀ line < 32, pnd.getLsbD line = true → line ∈ range

theorem testLine_eq (tab : Nat → PinIrqHdr) (s : Irq) {line : Nat} (inside : line ≤ 15)
    : testLine tab s line = pinIrqHdr tab line s :=
  if_pos (getExtiInter_eq inside s.pnd)

/-- The tests of a range call every handler and clear the register, by induction on the range. -/
theorem foldl_testLine (tab : Nat → PinIrqHdr) {range : List Nat}
    (inside : ∀ line ∈ range, line ≤ 15) (s : Irq)
    : (range.foldl (testLine tab) s).called = s.called ++ range.filter (attached tab)
      ∧ (range ≠ [] → (range.foldl (testLine tab) s).pnd = 0) := by
  induction range generalizing s with
  | nil => exact ⟨(List.append_nil _).symm, fun some => absurd rfl some⟩
  | cons line rest ih =>
      have ⟨called, cleared⟩ := ih (fun other later => inside other (.tail _ later))
        (testLine tab s line)
      rw [testLine_eq tab s (inside line (.head _))] at called cleared
      rw [List.foldl_cons, testLine_eq tab s (inside line (.head _))]
      refine ⟨?_, fun _ => ?_⟩
      · rw [called, pinIrqHdr, List.filter_cons]
        cases attached tab line with
        | false => rfl
        | true => exact List.append_assoc _ _ _
      · cases rest with
        | nil => exact cleanExtiInter_eq line s.pnd
        | cons => exact cleared (List.cons_ne_nil _ _)

/-- A range is dispatched exactly when all its lines with handlers are pending, and no others. -/
theorem dispatched_iff (tab : Nat → PinIrqHdr) {range : List Nat} (some : range ≠ [])
    (inside : ∀ line ∈ range, line ≤ 15) (pnd : BitVec 32)
    : Dispatched tab range pnd (range.foldl (testLine tab) { pnd, called := [] })
      ↔ AllPending tab range pnd := by
  have ⟨called, cleared⟩ := foldl_testLine tab inside { pnd, called := [] }
  rw [List.nil_append] at called
  constructor
  · intro dispatched
    refine
      {
        handled := fun line member handled => ?_
        others := fun line within pending => ?_
      }
    · have same := dispatched.called
      rw [called] at same
      have kept : line ∈ range.filter (attached tab) := List.mem_filter.mpr ⟨member, handled⟩
      rw [same, List.mem_filter, Bool.and_eq_true] at kept
      exact kept.2.1
    · have bit := dispatched.left line within
      rw [cleared some, pending, Bool.true_and] at bit
      simpa using bit.symm
  · intro pending
    refine
      {
        called := ?_
        left := fun line within => ?_
      }
    · rw [called]
      refine List.filter_congr fun line member => ?_
      cases handled : attached tab line with
      | false => rw [Bool.and_false]
      | true => rw [pending.handled line member handled, Bool.and_true]
    · rw [cleared some]
      cases here : pnd.getLsbD line with
      | false => simp
      | true => simp [pending.others line within here]

/-- When a line is tested rightly, cleared alone, and when the shared interrupts call the right
handlers: a test always finds its line pending, and the first one clears every line.
-/
theorem exti_dispatch_iff (tab : Nat → PinIrqHdr) (pnd : BitVec 32) (line : Nat)
    (inside : line ≤ 15)
    : ((getExtiInter line pnd = true ↔ pnd.getLsbD line = true) ↔ pnd.getLsbD line = true)
      ∧ ((∀ other < 32,
            (cleanExtiInter line pnd).getLsbD other
              = (pnd.getLsbD other && decide (other ≠ line)))
          ↔ ∀ other < 32, pnd.getLsbD other = true → other = line)
      ∧ (Dispatched tab lines95 pnd (exti95IrqHandler tab { pnd, called := [] })
          ↔ AllPending tab lines95 pnd)
      ∧ (Dispatched tab lines1510 pnd (exti1510IrqHandler tab { pnd, called := [] })
          ↔ AllPending tab lines1510 pnd) := by
  refine ⟨?_, ?_, dispatched_iff tab (by decide) (by decide) pnd,
    dispatched_iff tab (by decide) (by decide) pnd⟩
  · rw [getExtiInter_eq inside, eq_self, true_iff]
  · refine forall₂_congr fun other within => ?_
    rw [cleanExtiInter_eq]
    cases pnd.getLsbD other with
    | false => simp
    | true =>
        by_cases same : other = line
        · simp [same]
        · simp [same]

/-- A table with one handler, that of line 5. -/
def lineFive : Nat → PinIrqHdr :=
  fun line => if line = 5 then { pin := 5, mode := 1, hdr := 0x08001000, args := 0 } else .none

theorem exti_dispatch_lineFive
    : ((getExtiInter 5 (1#32 <<< 5) = true ↔ (1#32 <<< 5).getLsbD 5 = true)
          ↔ (1#32 <<< 5).getLsbD 5 = true)
      ∧ ((∀ other < 32,
            (cleanExtiInter 5 (1#32 <<< 5)).getLsbD other
              = ((1#32 <<< 5).getLsbD other && decide (other ≠ 5)))
          ↔ ∀ other < 32, (1#32 <<< 5).getLsbD other = true → other = 5)
      ∧ (Dispatched lineFive lines95 (1#32 <<< 5)
            (exti95IrqHandler lineFive { pnd := 1#32 <<< 5, called := [] })
          ↔ AllPending lineFive lines95 (1#32 <<< 5))
      ∧ (Dispatched lineFive lines1510 (1#32 <<< 5)
            (exti1510IrqHandler lineFive { pnd := 1#32 <<< 5, called := [] })
          ↔ AllPending lineFive lines1510 (1#32 <<< 5)) :=
  exti_dispatch_iff lineFive (1#32 <<< 5) 5 (by decide)

/-- With line 10 pending as well, its interrupt is lost to that of line 5. -/
theorem exti_dispatch_lost
    : ¬Dispatched lineFive lines95 (1#32 <<< 5 ||| 1#32 <<< 10)
        (exti95IrqHandler lineFive { pnd := 1#32 <<< 5 ||| 1#32 <<< 10, called := [] }) := by
  intro dispatched
  exact absurd (dispatched.left 10 (by decide)) (by decide)

end At32.PinIrq
