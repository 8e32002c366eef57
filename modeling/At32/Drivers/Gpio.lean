import At32.Lib.BitField

/-! The ports: what GPIO_Init changes in the configuration and in the output latch of a port,
when that is the state of its own pin, and what AFIO_Init makes of the port of a line.
-/

namespace At32.Gpio

open BitField

abbrev RCC_APB2EN_GPIOAEN : BitVec 32 := 0x00000004
abbrev RCC_APB2EN_GPIOBEN : BitVec 32 := 0x00000008
abbrev RCC_APB2EN_GPIOCEN : BitVec 32 := 0x00000010
abbrev RCC_APB2EN_GPIODEN : BitVec 32 := 0x00000020
abbrev RCC_APB2EN_GPIOEEN : BitVec 32 := 0x00000040

abbrev AFIO_ENABLEBIT : BitVec 32 := 0x01
abbrev GPIO_Speed_2MHz : BitVec 32 := 3

/-- HW_GPIOA to HW_GPIOE -/
inductive HwGpio
  | a
  | b
  | c
  | d
  | e
  deriving DecidableEq, Repr

/-- The number of a port. -/
def HwGpio.bits : HwGpio → BitVec 32
  | .a => 0
  | .b => 1
  | .c => 2
  | .d => 3
  | .e => 4

def HwGpio.enableBit : HwGpio → BitVec 32
  | .a => RCC_APB2EN_GPIOAEN
  | .b => RCC_APB2EN_GPIOBEN
  | .c => RCC_APB2EN_GPIOCEN
  | .d => RCC_APB2EN_GPIODEN
  | .e => RCC_APB2EN_GPIOEEN

/-- GPIO_t -/
inductive GpioMode
  | ain
  | inFloating
  | ipd
  | ipu
  | outPp
  | outOd
  | afPp
  | afOd
  deriving DecidableEq, Repr

def GpioMode.bits : GpioMode → BitVec 32
  | .ain => 0x00
  | .inFloating => 0x04
  | .ipd => 0x28
  | .ipu => 0x48
  | .outPp => 0x10
  | .outOd => 0x14
  | .afPp => 0x18
  | .afOd => 0x1c

/-- The registers of a port: the configuration and the output latch. BSRE and BRE hold nothing
of their own and are read as zero.
-/
structure Port where
  ctrll : BitVec 32
  ctrlh : BitVec 32
  optdt : BitVec 16
  deriving DecidableEq, Repr

/-- A write to BSRE: its high half resets bits of the latch and its low half sets them. -/
def Port.writeBsre (g : Port) (value : BitVec 32) : Port :=
  { g with optdt := g.optdt &&& ~~~(value >>> 16).setWidth 16 ||| value.setWidth 16 }

/-- A write to BRE: its low half resets bits of the latch. -/
def Port.writeBre (g : Port) (value : BitVec 32) : Port :=
  { g with optdt := g.optdt &&& ~~~value.setWidth 16 }

/-- The clock enable register, the ports, and AFIO->EXTIC[0] to AFIO->EXTIC[3]. -/
structure Board where
  apb2en : BitVec 32
  gpio : HwGpio → Port
  extic : Nat → BitVec 32

def Board.modify (s : Board) (port : HwGpio) (change : Port → Port) : Board :=
  { s with gpio := Function.update s.gpio port (change (s.gpio port)) }

/-- The pull of a mode, with BSRE and BRE read as zero. -/
def Port.pull (g : Port) (pin : Nat) (mode : GpioMode) : Port :=
  if mode = .ipu then g.writeBsre (0#32 ||| 1#32 <<< pin)
  else if mode = .ipd then g.writeBre (0#32 ||| 1#32 <<< pin)
  else g

/-- What GPIO_Init makes of a mode. -/
def pinmode (mode : GpioMode) : BitVec 32 :=
  let pinmode := mode.bits &&& 0xf
  if mode.bits &&& 0x10 = 0x10 then pinmode ||| GPIO_Speed_2MHz else pinmode

/-- GPIO_Init. The number of the pin is the place of its field from there on, and the pull is
written with it.
-/
def gpioInit (port : HwGpio) (pin : Nat) (mode : GpioMode) (s : Board) : Board :=
  let s := { s with apb2en := s.apb2en ||| port.enableBit }
  s.modify port fun g =>
    if pin < 8 then
      let temp := g.ctrll
      let pin := pin <<< 2
      let pinmask := 0xf#32 <<< pin
      let temp := temp &&& ~~~pinmask ||| pinmode mode <<< pin
      { g.pull pin mode with ctrll := temp }
    else if pin < 16 then
      let temp := g.ctrlh
      let pin := (pin - 8) <<< 2
      let pinmask := 0xf#32 <<< pin
      let temp := temp &&& ~~~pinmask ||| pinmode mode <<< pin
      { g.pull pin mode with ctrlh := temp }
    else
      g

/-- AFIO_Init, for a pin below 16. The field of the pin has four bits, of which one is cleared
before the port is joined.
-/
def afioInit (port : HwGpio) (pin : Nat) (s : Board) : Board :=
  let offset := (pin &&& 0x03) * 0x04
  let cleared := s.extic (pin >>> 2) &&& ~~~(0x01#32 <<< offset)
  { s with
    apb2en := s.apb2en ||| AFIO_ENABLEBIT
    extic := Function.update s.extic (pin >>> 2) (cleared ||| port.bits <<< offset) }

-----------------------------------------------------------------------------------------
-- The state of a pin
-----------------------------------------------------------------------------------------

/-- The configuration of a pin: four bits of one of the two registers. -/
def Port.nibble (g : Port) (pin : Nat) : BitVec 4 :=
  if pin < 8 then g.ctrll.extractLsb' (4 * pin) 4 else g.ctrlh.extractLsb' (4 * (pin - 8)) 4

/-- The code of a mode: outputs have the speed in the lower two bits. -/
def GpioMode.code : GpioMode → BitVec 4
  | .ain => 0b0000
  | .inFloating => 0b0100
  | .ipd | .ipu => 0b1000
  | .outPp => 0b0011
  | .outOd => 0b0111
  | .afPp => 0b1011
  | .afOd => 0b1111

/-- The latch of a pin that pulls, and otherwise what it was. -/
def GpioMode.latch (mode : GpioMode) (before : Bool) : Bool :=
  match mode with
  | .ipu => true
  | .ipd => false
  | _ => before

/-- A port has changed in one pin only, which has taken a mode. -/
structure OnlyPin (pin : Nat) (mode : GpioMode) (before after : Port) : Prop where
  nibble : ∀ other < 16,
    after.nibble other = if other = pin then mode.code else before.nibble other
  latch : ∀ other < 16,
    after.optdt.getLsbD other
      = if other = pin then mode.latch (before.optdt.getLsbD pin)
        else before.optdt.getLsbD other

/-- The place of the field of a pin, which is the bit that the pull is written to. -/
def place (pin : Nat) : Nat := 4 * (pin % 8)

/-- The latch is already what the pull should make of it, and the write does nothing to the
bit that it goes to instead.
-/
def PullHeld (pin : Nat) (mode : GpioMode) (latch : BitVec 16) : Prop :=
  match mode with
  | .ipu =>
      latch.getLsbD pin = true
      ∧ (place pin < 16 → latch.getLsbD (place pin) = true)
      ∧ (16 ≤ place pin → latch.getLsbD (place pin - 16) = false)
  | .ipd =>
      latch.getLsbD pin = false
      ∧ (place pin < 16 → latch.getLsbD (place pin) = false)
  | _ => True

-----------------------------------------------------------------------------------------
-- The registers bit by bit
-----------------------------------------------------------------------------------------

theorem pinmode_eq (mode : GpioMode) : pinmode mode = mode.code.setWidth 32 := by
  cases mode <;> rfl

theorem nibbleMask_getLsbD (i : Nat) : (0xf#32).getLsbD i = decide (i < 4) := by
  rw [BitVec.getLsbD_ofNat]
  change (decide (i < 32) && (2 ^ 4 - 1).testBit i) = _
  rw [Nat.testBit_two_pow_sub_one]
  by_cases low : i < 4
  · have inside : i < 32 := by omega
    simp [low, inside]
  · simp [low]

/-- A port as GPIO_Init leaves it. -/
structure Configured (pin : Nat) (mode : GpioMode) (before after : Port) : Prop where
  ctrll : after.ctrll
    = if pin < 8 then
        before.ctrll &&& ~~~(0xf#32 <<< place pin) ||| mode.code.setWidth 32 <<< place pin
      else before.ctrll
  ctrlh : after.ctrlh
    = if pin < 8 then before.ctrlh
      else before.ctrlh &&& ~~~(0xf#32 <<< place pin) ||| mode.code.setWidth 32 <<< place pin
  optdt : after.optdt = (before.pull (place pin) mode).optdt

theorem Port.pull_ctrl (g : Port) (pin : Nat) (mode : GpioMode)
    : (g.pull pin mode).ctrll = g.ctrll ∧ (g.pull pin mode).ctrlh = g.ctrlh := by
  unfold Port.pull
  split
  · exact ⟨rfl, rfl⟩
  · split <;> exact ⟨rfl, rfl⟩

theorem gpioInit_configured (port : HwGpio) {pin : Nat} (inside : pin < 16) (mode : GpioMode)
    (s : Board)
    : Configured pin mode (s.gpio port) ((gpioInit port pin mode s).gpio port) := by
  have kept := (s.gpio port).pull_ctrl (place pin) mode
  simp only [gpioInit, Board.modify, Function.update_self, if_pos inside, Nat.shiftLeft_eq,
    pinmode_eq]
  by_cases low : pin < 8
  · have here : pin * 2 ^ 2 = place pin := by
      unfold place
      omega
    rw [if_pos low, here]
    exact
      {
        ctrll := by rw [if_pos low]
        ctrlh := by rw [if_pos low, kept.2]
        optdt := rfl
      }
  · have here : (pin - 8) * 2 ^ 2 = place pin := by
      unfold place
      omega
    rw [if_neg low, here]
    exact
      {
        ctrll := by rw [if_neg low, kept.1]
        ctrlh := by rw [if_neg low]
        optdt := rfl
      }

/-- The nibbles are those of the pin's mode, whatever the pull does. -/
theorem Configured.nibble {pin : Nat} (inside : pin < 16) {mode : GpioMode} {before after : Port}
    (configured : Configured pin mode before after) {other : Nat} (otherInside : other < 16)
    : after.nibble other = if other = pin then mode.code else before.nibble other := by
  have ones := nibbleMask_getLsbD
  unfold Port.nibble
  rw [configured.ctrll, configured.ctrlh]
  by_cases same : other = pin
  · subst same
    rw [if_pos rfl]
    by_cases low : other < 8
    · have here : 4 * other = place other := by
        unfold place
        omega
      rw [if_pos low, if_pos low, here]
      exact extract_insert_self ones (by unfold place; omega)
    · have here : 4 * (other - 8) = place other := by
        unfold place
        omega
      rw [if_neg low, if_neg low, here]
      exact extract_insert_self ones (by unfold place; omega)
  · rw [if_neg same]
    by_cases low : pin < 8
    · rw [if_pos low, if_pos low]
      by_cases otherLow : other < 8
      · rw [if_pos otherLow, if_pos otherLow]
        exact extract_insert_apart ones (by omega) (by unfold place; omega)
      · rw [if_neg otherLow, if_neg otherLow]
    · rw [if_neg low, if_neg low]
      by_cases otherLow : other < 8
      · rw [if_pos otherLow, if_pos otherLow]
      · rw [if_neg otherLow, if_neg otherLow]
        exact extract_insert_apart ones (by omega) (by unfold place; omega)

/-- The latch behind a pull up that is written to a bit. -/
theorem Port.pull_ipu (g : Port) {bit : Nat} (inside : bit < 32) {other : Nat}
    (otherInside : other < 16)
    : (g.pull bit .ipu).optdt.getLsbD other
      = (g.optdt.getLsbD other && !decide (bit = other + 16) || decide (bit = other)) := by
  change (g.optdt &&& ~~~((0#32 ||| 1#32 <<< bit) >>> 16).setWidth 16
    ||| (0#32 ||| 1#32 <<< bit).setWidth 16).getLsbD other = _
  rw [BitVec.zero_or, getLsbD_update, BitVec.getLsbD_setWidth, BitVec.getLsbD_setWidth,
    BitVec.getLsbD_ushiftRight, getLsbD_single _ _ inside, getLsbD_single _ _ inside,
    Nat.add_comm 16]
  simp only [otherInside, decide_true, Bool.true_and, eq_comm]

/-- The latch behind a pull down that is written to a bit. -/
theorem Port.pull_ipd (g : Port) {bit : Nat} (inside : bit < 32) {other : Nat}
    (otherInside : other < 16)
    : (g.pull bit .ipd).optdt.getLsbD other
      = (g.optdt.getLsbD other && !decide (bit = other)) := by
  change (g.optdt &&& ~~~(0#32 ||| 1#32 <<< bit).setWidth 16).getLsbD other = _
  rw [BitVec.zero_or, BitVec.getLsbD_and, BitVec.getLsbD_not, BitVec.getLsbD_setWidth,
    getLsbD_single _ _ inside]
  simp only [otherInside, decide_true, Bool.true_and, eq_comm]

/-- The place of the field is the pin itself for pin 0 alone, and neither half of BSRE has its
bit there for another one.
-/
theorem place_ne {pin : Nat} (inside : pin < 16) (other : pin ≠ 0)
    : place pin ≠ pin ∧ place pin ≠ pin + 16 := by
  unfold place
  omega

theorem place_lt (pin : Nat) : place pin < 32 := by
  unfold place
  omega

/-- The latch has changed in the bit of the pin only, as the mode says. -/
def LatchRight (pin : Nat) (mode : GpioMode) (before after : BitVec 16) : Prop :=
  ∀ other < 16,
    after.getLsbD other
      = if other = pin then mode.latch (before.getLsbD pin) else before.getLsbD other

/-- A latch that nothing is written to is right for a mode that keeps its bit. -/
theorem latchRight_self {pin : Nat} {mode : GpioMode} {latch : BitVec 16}
    (kept : mode.latch (latch.getLsbD pin) = latch.getLsbD pin)
    : LatchRight pin mode latch latch := by
  intro other _
  by_cases same : other = pin
  · rw [if_pos same, same, kept]
  · rw [if_neg same]

/-- A pull up that is written to another bit, by cases on the bits it could show in. -/
theorem Port.pull_ipu_right_iff (g : Port) {pin : Nat} (inside : pin < 16) (other : pin ≠ 0)
    : LatchRight pin .ipu g.optdt (g.pull (place pin) .ipu).optdt
      ↔ PullHeld pin .ipu g.optdt := by
  have within := place_lt pin
  have ⟨notPin, notReset⟩ := place_ne inside other
  constructor
  · intro right
    refine ⟨?_, fun low => ?_, fun high => ?_⟩
    · have atPin := right pin inside
      rw [g.pull_ipu within inside] at atPin
      simpa [notPin, notReset, GpioMode.latch] using atPin
    · have atPlace := right (place pin) low
      rw [g.pull_ipu within low, if_neg notPin] at atPlace
      simpa using atPlace.symm
    · have atReset := right (place pin - 16) (by omega)
      have there : place pin = place pin - 16 + 16 := by omega
      have apart : ¬place pin - 16 = pin := by omega
      have apartBit : ¬place pin = place pin - 16 := by omega
      rw [g.pull_ipu within (by omega), if_neg apart] at atReset
      simpa [← there, apartBit] using atReset.symm
  · intro ⟨held, set, reset⟩ bit bitInside
    rw [g.pull_ipu within bitInside]
    by_cases here : bit = pin
    · subst here
      simp [held, notReset, GpioMode.latch]
    · rw [if_neg here]
      by_cases atPlace : place pin = bit
      · have value := set (by omega)
        rw [atPlace] at value
        simp [atPlace, value]
      · by_cases atReset : place pin = bit + 16
        · have value := reset (by omega)
          rw [atReset, Nat.add_sub_cancel] at value
          simp [atReset, value]
        · simp [atPlace, atReset]

/-- A pull down that is written to another bit. -/
theorem Port.pull_ipd_right_iff (g : Port) {pin : Nat} (inside : pin < 16) (other : pin ≠ 0)
    : LatchRight pin .ipd g.optdt (g.pull (place pin) .ipd).optdt
      ↔ PullHeld pin .ipd g.optdt := by
  have within := place_lt pin
  have notPin := (place_ne inside other).1
  constructor
  · intro right
    refine ⟨?_, fun low => ?_⟩
    · have atPin := right pin inside
      rw [g.pull_ipd within inside] at atPin
      simpa [notPin, GpioMode.latch] using atPin
    · have atPlace := right (place pin) low
      rw [g.pull_ipd within low, if_neg notPin] at atPlace
      simpa using atPlace.symm
  · intro ⟨held, reset⟩ bit bitInside
    rw [g.pull_ipd within bitInside]
    by_cases here : bit = pin
    · subst here
      simp [held, GpioMode.latch]
    · rw [if_neg here]
      by_cases atPlace : place pin = bit
      · have value := reset (by omega)
        rw [atPlace] at value
        simp [atPlace, value]
      · simp [atPlace]

/-- The pull of pin 0 is written to its own bit. -/
theorem Port.pull_right_zero (g : Port) (mode : GpioMode)
    : LatchRight 0 mode g.optdt (g.pull (place 0) mode).optdt := by
  intro bit inside
  cases mode with
  | ipu =>
      rw [g.pull_ipu (by decide) inside]
      by_cases here : bit = 0
      · simp [here, place, GpioMode.latch]
      · simp [here, place, Ne.symm here]
  | ipd =>
      rw [g.pull_ipd (by decide) inside]
      by_cases here : bit = 0
      · simp [here, place, GpioMode.latch]
      · simp [here, place, Ne.symm here]
  | ain | inFloating | outPp | outOd | afPp | afOd => exact latchRight_self rfl bit inside

/-- The latch is right exactly for pin 0 and where it holds what the pull should make of it. -/
theorem Port.pull_right_iff (g : Port) {pin : Nat} (inside : pin < 16) (mode : GpioMode)
    : LatchRight pin mode g.optdt (g.pull (place pin) mode).optdt
      ↔ pin = 0 ∨ PullHeld pin mode g.optdt := by
  by_cases zero : pin = 0
  · subst zero
    exact iff_of_true (g.pull_right_zero mode) (.inl rfl)
  · rw [or_iff_right zero]
    cases mode with
    | ipu => exact g.pull_ipu_right_iff inside zero
    | ipd => exact g.pull_ipd_right_iff inside zero
    | ain | inFloating | outPp | outOd | afPp | afOd =>
        exact iff_of_true (latchRight_self rfl) trivial

/-- GPIO_Init changes the state of its pin only, to that of the mode, exactly for pin 0 and
where the latch holds what a pull should make of it; the nibbles are always right.
-/
theorem gpioInit_onlyPin_iff (port : HwGpio) (pin : Nat) (inside : pin < 16) (mode : GpioMode)
    (s : Board)
    : (OnlyPin pin mode (s.gpio port) ((gpioInit port pin mode s).gpio port)
        ∧ ∀ other ≠ port, (gpioInit port pin mode s).gpio other = s.gpio other)
      ↔ pin = 0 ∨ PullHeld pin mode (s.gpio port).optdt := by
  have configured := gpioInit_configured port inside mode s
  have elsewhere : ∀ other ≠ port, (gpioInit port pin mode s).gpio other = s.gpio other :=
    fun other apart => Function.update_of_ne apart _ _
  rw [and_iff_left elsewhere, ← (s.gpio port).pull_right_iff inside mode, ← configured.optdt]
  exact ⟨fun only => only.latch, fun right =>
    { nibble := fun other within => configured.nibble inside within, latch := right }⟩

/-- A board whose ports are as after a reset. -/
def resetBoard : Board :=
  {
    apb2en := 0
    gpio := fun _ => { ctrll := 0x44444444, ctrlh := 0x44444444, optdt := 0 }
    extic := fun _ => 0
  }

/-- The same board with the latches of pins 1 and 4 set. -/
def latchedBoard : Board :=
  { resetBoard with gpio := fun port => { resetBoard.gpio port with optdt := 0x0012 } }

/-- A pull up of pin 1 where its latch is set already, and that of pin 4 that the write goes to. -/
theorem gpioInit_onlyPin_ipu
    : OnlyPin 1 .ipu (latchedBoard.gpio .a) ((gpioInit .a 1 .ipu latchedBoard).gpio .a)
      ∧ ∀ other ≠ HwGpio.a,
          (gpioInit .a 1 .ipu latchedBoard).gpio other = latchedBoard.gpio other :=
  (gpioInit_onlyPin_iff .a 1 (by decide) .ipu latchedBoard).mpr
    (Or.inr ⟨by decide, fun _ => by decide, fun high => absurd high (by decide)⟩)

/-- A pull up of pin 1 sets the latch of pin 4. -/
theorem gpioInit_pullsOther
    : ¬(OnlyPin 1 .ipu (resetBoard.gpio .a) ((gpioInit .a 1 .ipu resetBoard).gpio .a)
        ∧ ∀ other ≠ HwGpio.a,
            (gpioInit .a 1 .ipu resetBoard).gpio other = resetBoard.gpio other) := by
  intro only
  have kept := only.1.latch 4 (by decide)
  revert kept
  decide

-----------------------------------------------------------------------------------------
-- The port of a line
-----------------------------------------------------------------------------------------

/-- The port that a line is taken from. -/
def Board.exticPort (s : Board) (pin : Nat) : BitVec 4 :=
  (s.extic (pin / 4)).extractLsb' (pin % 4 * 4) 4

/-- The number of a port in the field of a line. -/
def HwGpio.field (port : HwGpio) : BitVec 4 := port.bits.setWidth 4

theorem HwGpio.bits_eq (port : HwGpio) : port.bits = port.field.setWidth 32 := by
  cases port <;> rfl

/-- AFIO_Init joins the port to what the field of the pin holds but its bit 0, and changes no
other field; bit by bit.
-/
theorem afioInit_exticPort (port : HwGpio) (pin other : Nat) (s : Board)
    : (afioInit port pin s).exticPort other
      = if other = pin then s.exticPort pin &&& ~~~1#4 ||| port.field else s.exticPort other := by
  have word : pin >>> 2 = pin / 4 := Nat.shiftRight_eq_div_pow pin 2
  have offset : (pin &&& 0x03) * 0x04 = pin % 4 * 4 :=
    congrArg (· * 4) (Nat.and_two_pow_sub_one_eq_mod pin 2)
  simp only [Board.exticPort, afioInit, word, offset, port.bits_eq]
  by_cases sameWord : other / 4 = pin / 4
  · rw [sameWord, Function.update_self]
    refine BitVec.eq_of_getLsbD_eq fun i inside => ?_
    rw [BitVec.getLsbD_extractLsb', getLsbD_update, getLsbD_single _ _ (by omega),
      BitVec.getLsbD_shiftLeft, BitVec.getLsbD_setWidth]
    by_cases same : other = pin
    · subst same
      rw [if_pos rfl, getLsbD_update, BitVec.getLsbD_extractLsb', Nat.add_sub_cancel_left,
        BitVec.getLsbD_one]
      have low : other % 4 * 4 + i < 32 := by omega
      have width : i < 32 := by omega
      have notBelow : ¬other % 4 * 4 + i < other % 4 * 4 := by omega
      simp [inside, low, width, notBelow]
    · rw [if_neg same, BitVec.getLsbD_extractLsb']
      rcases Nat.lt_or_gt_of_ne same with below | above
      · have before : other % 4 * 4 + i < pin % 4 * 4 := by omega
        simp [before, Nat.ne_of_lt before]
      · have behind : 4 ≤ other % 4 * 4 + i - pin % 4 * 4 := by omega
        have apart : other % 4 * 4 + i ≠ pin % 4 * 4 := by omega
        rw [BitVec.getLsbD_of_ge port.field _ behind]
        simp [apart]
  · have same : other ≠ pin := fun same => sameWord (by rw [same])
    rw [if_neg same, Function.update_of_ne sameWord]

end At32.Gpio
