import At32.Drivers.Clock
import Mathlib.Tactic.Ring

/-! The USART driver: its configuration functions, and how near the baud rate register comes to
the clock that the instance runs on.
-/

namespace At32.Uart

open Clock

abbrev HW_USART1 : UInt32 := 0
abbrev HW_USART2 : UInt32 := 1
abbrev HW_USART3 : UInt32 := 2
abbrev HW_UART4 : UInt32 := 3
abbrev HW_UART5 : UInt32 := 4

abbrev RCC_APB2EN_USART1EN : UInt32 := 0x00004000
abbrev RCC_APB1EN_USART2EN : UInt32 := 0x00020000
abbrev RCC_APB1EN_USART3EN : UInt32 := 0x00040000
abbrev RCC_APB1EN_UART4EN : UInt32 := 0x00080000
abbrev RCC_APB1EN_UART5EN : UInt32 := 0x00100000

abbrev CTRL1_MASK : UInt16 := 0x29f3
abbrev CTRL2_STOP_Mask : UInt16 := 0xcfff
abbrev CTRL3_Mask : UInt16 := 0x4ff

abbrev USART_CTRL1_REN : UInt16 := 0x0004
abbrev USART_CTRL1_TEN : UInt16 := 0x0008
abbrev USART_CTRL1_PSEL : UInt16 := 0x0200
abbrev USART_CTRL1_PCEN : UInt16 := 0x0400
abbrev USART_CTRL1_LEN : UInt16 := 0x1000
abbrev USART_CTRL1_UEN : UInt16 := 0x2000
abbrev USART_CTRL2_STOP_B1 : UInt16 := 0x2000

@[match_pattern] abbrev USART_Parity_No : UInt32 := 0
@[match_pattern] abbrev USART_Parity_Odd : UInt32 := 1
@[match_pattern] abbrev USART_Parity_Even : UInt32 := 2
@[match_pattern] abbrev DATA_BITS_8 : UInt32 := 8
@[match_pattern] abbrev DATA_BITS_9 : UInt32 := 9
@[match_pattern] abbrev STOP_BITS_1 : UInt32 := 0
@[match_pattern] abbrev STOP_BITS_2 : UInt32 := 1

/-- The entries of uart_list. -/
inductive Instance
  | usart1
  | usart2
  | usart3
  | uart4
  | uart5
  deriving DecidableEq, Repr

/-- The instance that a number stands for. -/
def uartList (number : UInt32) : Option Instance :=
  if number = HW_USART1 then some .usart1
  else if number = HW_USART2 then some .usart2
  else if number = HW_USART3 then some .usart3
  else if number = HW_UART4 then some .uart4
  else if number = HW_UART5 then some .uart5
  else none

/-- The registers of an instance that are configured. -/
structure Usart where
  baudr : UInt16
  ctrl1 : UInt16
  ctrl2 : UInt16
  ctrl3 : UInt16
  deriving DecidableEq, Repr

/-- The clock registers and those of every instance. -/
structure Board where
  rcc : Rcc
  usart : Instance → Usart

def Board.modify (s : Board) (inst : Instance) (change : Usart → Usart) : Board :=
  { s with usart := Function.update s.usart inst (change (s.usart inst)) }

@[simp] theorem Board.modify_usart (s : Board) (inst : Instance) (change : Usart → Usart)
    : (s.modify inst change).usart inst = change (s.usart inst) :=
  Function.update_self inst _ _

/-- The switch of UART_Init. -/
def Instance.enable (inst : Instance) (rcc : Rcc) : Rcc :=
  match inst with
  | .usart1 => { rcc with apb2en := rcc.apb2en ||| RCC_APB2EN_USART1EN }
  | .usart2 => { rcc with apb1en := rcc.apb1en ||| RCC_APB1EN_USART2EN }
  | .usart3 => { rcc with apb1en := rcc.apb1en ||| RCC_APB1EN_USART3EN }
  | .uart4 => { rcc with apb1en := rcc.apb1en ||| RCC_APB1EN_UART4EN }
  | .uart5 => { rcc with apb1en := rcc.apb1en ||| RCC_APB1EN_UART5EN }

/-- What UART_SetBaudRate makes of its divisor in hundredths. -/
def baudDivider (integerdivider : UInt32) : UInt32 :=
  let tmpreg := (integerdivider / 100) <<< 4
  let fractionaldivider := integerdivider - (100 : UInt32) * (tmpreg >>> 4)
  tmpreg ||| ((fractionaldivider * 16 + 50) / 100 &&& 0x0F)

/-- The clock that UART_SetBaudRate reads. -/
def Instance.apbclock (inst : Instance) : ClockFre :=
  if inst = .usart1 then .pclk1 else .pclk2

theorem Instance.apbclock_ne_hse (inst : Instance) : inst.apbclock ≠ .hse := by
  cases inst <;> decide

/-- UART_SetBaudRate -/
def uartSetBaudRate (inst : Instance) (baud : UInt32) (s : Board) : Option Board := do
  let apbclock ← getClockFrequency inst.apbclock s.rcc
  let integerdivider ← divide (25 * apbclock) (4 * baud)
  return s.modify inst fun usart =>
    { usart with baudr := (baudDivider integerdivider).toUInt16 }

/-- UART_Init: its result and what it leaves. -/
def uartInit (number baudrate : UInt32) (s : Board) : Option (UInt32 × Board) :=
  match uartList number with
  | none => some (0, s)
  | some inst => do
      let s := { s with rcc := inst.enable s.rcc }
      let s := s.modify inst fun usart =>
        { usart with
          ctrl1 := usart.ctrl1 &&& CTRL1_MASK ||| (USART_CTRL1_REN ||| USART_CTRL1_TEN)
          ctrl2 := usart.ctrl2 &&& CTRL2_STOP_Mask
          ctrl3 := usart.ctrl3 &&& CTRL3_Mask }
      return (1, ← uartSetBaudRate inst baudrate s)

/-- USART_Cmd -/
def usartCmd (inst : Instance) (enable : Bool) (s : Board) : Board :=
  s.modify inst fun usart =>
    { usart with
      ctrl1 :=
        if enable then usart.ctrl1 ||| USART_CTRL1_UEN
        else usart.ctrl1 &&& ~~~USART_CTRL1_UEN }

/-- set_parity_bits -/
def setParityBits (inst : Instance) (parity : UInt32) (s : Board) : Board :=
  let temp :=
    match parity with
    | USART_Parity_No => 0 &&& ~~~USART_CTRL1_PCEN
    | USART_Parity_Odd => USART_CTRL1_PCEN
    | USART_Parity_Even => USART_CTRL1_PSEL ||| USART_CTRL1_PCEN
    | _ => 0 &&& ~~~USART_CTRL1_PCEN
  s.modify inst fun usart => { usart with ctrl1 := usart.ctrl1 ||| temp }

/-- set_stop_bits -/
def setStopBits (inst : Instance) (stopBit : UInt32) (s : Board) : Board :=
  let temp :=
    match stopBit with
    | STOP_BITS_1 => 0
    | STOP_BITS_2 => USART_CTRL2_STOP_B1
    | _ => 0
  s.modify inst fun usart => { usart with ctrl2 := usart.ctrl2 ||| temp }

/-- set_worldlength -/
def setWorldlength (inst : Instance) (len : UInt32) (s : Board) : Board :=
  let temp :=
    match len with
    | DATA_BITS_8 => 0
    | DATA_BITS_9 => USART_CTRL1_LEN
    | _ => 0
  s.modify inst fun usart => { usart with ctrl1 := usart.ctrl1 ||| temp }

-----------------------------------------------------------------------------------------
-- Accuracy
-----------------------------------------------------------------------------------------

/-- The clock of the bus on which UART_Init enables the instance. -/
def Instance.busClock : Instance → ClockFre
  | .usart1 => .pclk2
  | _ => .pclk1

/-- The clock is that of the register in which the instance is enabled. -/
theorem Instance.enable_busClock (inst : Instance) (rcc : Rcc)
    : ∃ bit : UInt32, bit ≠ 0 ∧
        (inst.busClock = .pclk2 ∧ inst.enable rcc = { rcc with apb2en := rcc.apb2en ||| bit }
        ∨ inst.busClock = .pclk1
          ∧ inst.enable rcc = { rcc with apb1en := rcc.apb1en ||| bit }) := by
  cases inst with
  | usart1 => exact ⟨RCC_APB2EN_USART1EN, by decide, .inl ⟨rfl, rfl⟩⟩
  | usart2 => exact ⟨RCC_APB1EN_USART2EN, by decide, .inr ⟨rfl, rfl⟩⟩
  | usart3 => exact ⟨RCC_APB1EN_USART3EN, by decide, .inr ⟨rfl, rfl⟩⟩
  | uart4 => exact ⟨RCC_APB1EN_UART4EN, by decide, .inr ⟨rfl, rfl⟩⟩
  | uart5 => exact ⟨RCC_APB1EN_UART5EN, by decide, .inr ⟨rfl, rfl⟩⟩

/-- The divisor in sixteenths is within one of what the frequency needs. -/
def Accurate (baudr baud frequency : Nat) : Prop :=
  baudr * baud ≤ frequency + baud ∧ frequency ≤ baudr * baud + baud

/-- What the register holds behind UART_SetBaudRate. -/
def baudrStored (inst : Instance) (baud : UInt32) (s : Board) : Option UInt16 :=
  (uartSetBaudRate inst baud s).map fun after => (after.usart inst).baudr

/-- Hundredths of a divisor that are near to a frequency, where those from 97 on lose the
carry of their sixteenths.
-/
def Near (hundredths baud frequency : Nat) : Prop :=
  let lost := if hundredths % 100 < 97 then 0 else 1600
  100 * ((frequency + baud - 1) / baud) + lost ≤ 16 * hundredths + 150
  ∧ 16 * hundredths < 100 * (frequency / baud) + 150 + lost

/-- The sixteenths of a divisor in hundredths. -/
def sixteenths (hundredths : Nat) : Nat :=
  hundredths / 100 * 16 + (hundredths % 100 * 16 + 50) / 100 % 16

/-- The sixteenths are the nearest ones, but for those that lose their carry. -/
theorem sixteenths_rounded (hundredths : Nat)
    : ∃ rest < 100,
        16 * hundredths + 50
          = 100 * (sixteenths hundredths + if hundredths % 100 < 97 then 0 else 16) + rest := by
  have split := Nat.div_add_mod hundredths 100
  have rounded := Nat.div_add_mod (hundredths % 100 * 16 + 50) 100
  have fraction := Nat.mod_lt hundredths (show 0 < 100 by decide)
  refine ⟨(hundredths % 100 * 16 + 50) % 100, Nat.mod_lt _ (by decide), ?_⟩
  have rest := Nat.mod_lt (hundredths % 100 * 16 + 50) (show 0 < 100 by decide)
  unfold sixteenths
  generalize hundredths % 100 = r at *
  generalize (r * 16 + 50) / 100 = x at *
  generalize (r * 16 + 50) % 100 = y at *
  split_ifs <;> omega

/-- The register holds the sixteenths within its width, and its 65536 sixteenths are 409600
hundredths.
-/
theorem sixteenths_mod (hundredths : Nat)
    : sixteenths hundredths % 65536 = sixteenths (hundredths % 409600) := by
  have fraction : hundredths % 409600 % 100 = hundredths % 100 :=
    Nat.mod_mod_of_dvd _ (by decide)
  unfold sixteenths
  rw [fraction]
  have low := Nat.mod_lt ((hundredths % 100 * 16 + 50) / 100) (show 0 < 16 by decide)
  generalize (hundredths % 100 * 16 + 50) / 100 % 16 = x at *
  omega

theorem accurate_sixteenths {baud : Nat} (running : 0 < baud) (hundredths frequency : Nat)
    : Accurate (sixteenths hundredths) baud frequency ↔ Near hundredths baud frequency := by
  have above : sixteenths hundredths * baud ≤ frequency + baud
      ↔ sixteenths hundredths ≤ frequency / baud + 1 := by
    rw [← Nat.le_div_iff_mul_le running, Nat.add_div_right _ running]
  have below : frequency ≤ sixteenths hundredths * baud + baud
      ↔ (frequency + baud - 1) / baud ≤ sixteenths hundredths + 1 := by
    rw [Nat.div_le_iff_le_mul_add_pred running, Nat.mul_add, Nat.mul_comm baud]
    omega
  obtain ⟨rest, small, rounded⟩ := sixteenths_rounded hundredths
  unfold Accurate Near
  rw [above, below]
  simp only
  split at rounded <;> simp only [*, if_true, if_false] <;> omega

theorem baudDivider_toNat (integerdivider : UInt32)
    : (baudDivider integerdivider).toNat = sixteenths integerdivider.toNat := by
  have whole : ((integerdivider / 100) <<< 4).toNat = integerdivider.toNat / 100 * 16 := by
    rw [UInt32.toNat_shiftLeft, UInt32.toNat_div, Nat.shiftLeft_eq]
    have small := integerdivider.toNat_lt
    change integerdivider.toNat / 100 * 2 ^ 4 % 2 ^ 32 = _
    omega
  have shifted : (integerdivider / 100) <<< 4 >>> 4 = integerdivider / 100 := by
    rw [← UInt32.toNat_inj, UInt32.toNat_shiftRight, whole, UInt32.toNat_div,
      Nat.shiftRight_eq_div_pow]
    exact Nat.mul_div_cancel _ (by decide)
  have fraction : (integerdivider - 100 * (integerdivider / 100)).toNat
      = integerdivider.toNat % 100 := by
    have product : (100 * (integerdivider / 100)).toNat
        = 100 * (integerdivider.toNat / 100) := by
      rw [UInt32.toNat_mul, UInt32.toNat_div]
      have small := integerdivider.toNat_lt
      change 100 * (integerdivider.toNat / 100) % 2 ^ 32 = _
      omega
    rw [UInt32.toNat_sub_of_le, product]
    · omega
    · rw [UInt32.le_iff_toNat_le, product]
      omega
  have rounded : (((integerdivider - 100 * (integerdivider / 100)) * 16 + 50) / 100).toNat
      = (integerdivider.toNat % 100 * 16 + 50) / 100 := by
    rw [UInt32.toNat_div, UInt32.toNat_add, UInt32.toNat_mul, fraction]
    change (integerdivider.toNat % 100 * 16 % 2 ^ 32 + 50) % 2 ^ 32 / 100 = _
    omega
  simp only [baudDivider, shifted]
  rw [UInt32.toNat_or, UInt32.toNat_and, whole, rounded, Nat.mul_comm, sixteenths]
  change 2 ^ 4 * _ ||| _ &&& (2 ^ 4 - 1) = _
  rw [Nat.and_two_pow_sub_one_eq_mod, ← Nat.two_pow_add_eq_or_of_lt (Nat.mod_lt _ (by decide)),
    Nat.mul_comm]

/-- Both buses divide the same clock by powers of two. -/
theorem apbDivider_apart {code other : Nat} (inside : code < 8) (otherInside : other < 8)
    : apbDivider code = apbDivider other
      ∨ 2 * apbDivider code ∣ apbDivider other
      ∨ 2 * apbDivider other ∣ apbDivider code := by
  have cases : ∀ code other : Fin 8,
      apbDivider code.val = apbDivider other.val
      ∨ 2 * apbDivider code.val ∣ apbDivider other.val
      ∨ 2 * apbDivider other.val ∣ apbDivider code.val := by
    decide
  exact cases ⟨code, inside⟩ ⟨other, otherInside⟩

theorem div_double_le {frequency divider other : Nat} (divides : 2 * divider ∣ other)
    : 2 * (frequency / other) ≤ frequency / divider := by
  obtain ⟨factor, rfl⟩ := divides
  rw [Nat.mul_comm 2 divider, ← Nat.div_div_eq_div_mul, ← Nat.div_div_eq_div_mul]
  calc 2 * (frequency / divider / 2 / factor)
      ≤ 2 * (frequency / divider / 2) := Nat.mul_le_mul_left _ (Nat.div_le_self _ _)
    _ ≤ frequency / divider := Nat.mul_div_le _ _

/-- The clock read is the one that the instance runs on, or one of them has at least twice the
frequency of the other.
-/
theorem apbclock_apart (inst : Instance) (rcc : Rcc)
    : encodedFrequency inst.apbclock rcc = encodedFrequency inst.busClock rcc
      ∨ 2 * encodedFrequency inst.apbclock rcc ≤ encodedFrequency inst.busClock rcc
      ∨ 2 * encodedFrequency inst.busClock rcc ≤ encodedFrequency inst.apbclock rcc := by
  have apart := @apbDivider_apart (apb1Code rcc) (apb2Code rcc) (Nat.mod_lt _ (by decide))
    (Nat.mod_lt _ (by decide))
  have frequencies : encodedFrequency .pclk1 rcc = encodedFrequency .pclk2 rcc
      ∨ 2 * encodedFrequency .pclk2 rcc ≤ encodedFrequency .pclk1 rcc
      ∨ 2 * encodedFrequency .pclk1 rcc ≤ encodedFrequency .pclk2 rcc := by
    simp only [encodedFrequency]
    rcases apart with same | divides | divides
    · exact .inl (by rw [same])
    · exact .inr (.inl (div_double_le divides))
    · exact .inr (.inr (div_double_le divides))
  cases inst with
  | usart1 => exact frequencies.imp_right Or.symm
  | usart2 | usart3 | uart4 | uart5 => exact frequencies.imp Eq.symm id

/-- What is stored, for a baud rate that the products of the function hold. -/
theorem baudrStored_eq (inst : Instance) {baud : UInt32} (running : 0 < baud.toNat)
    (quarter : 4 * baud.toNat < 0x100000000) (s : Board)
    : (Decoded inst.apbclock s.rcc
        ∧ (baudrStored inst baud s).map UInt16.toNat
          = some
              (sixteenths
                (25 * encodedFrequency inst.apbclock s.rcc % 0x100000000
                  / (4 * baud.toNat) % 409600)))
      ∨ (¬Decoded inst.apbclock s.rcc ∧ baudrStored inst baud s = none) := by
  unfold baudrStored uartSetBaudRate
  rcases getClockFrequency_cases inst.apbclock_ne_hse s.rcc
    with ⟨decoded, apbclock, read, value⟩ | ⟨not, read⟩
  · refine .inl ⟨decoded, ?_⟩
    have divisor : (4 * baud).toNat = 4 * baud.toNat := by
      rw [UInt32.toNat_mul]
      exact Nat.mod_eq_of_lt quarter
    have nonzero : 4 * baud ≠ 0 := fun zero => by
      rw [zero] at divisor
      change 0 = _ at divisor
      omega
    rw [read, Option.bind_eq_bind, Option.bind_some, divide, if_neg nonzero]
    change some (((Board.modify _ _ _).usart inst).baudr.toNat) = _
    rw [Board.modify_usart, UInt32.toNat_toUInt16, baudDivider_toNat, ← sixteenths_mod,
      UInt32.toNat_div, UInt32.toNat_mul, divisor, value]
    rfl
  · refine .inr ⟨not, ?_⟩
    rw [read]
    rfl

/-- A quotient of a product and the quotient that it comes from. -/
theorem hundredths_bounds {baud : Nat} (running : 0 < baud) (frequency : Nat)
    : 4 * (25 * frequency / (4 * baud)) < 25 * (frequency / baud + 1)
      ∧ 25 * (frequency / baud) < 4 * (25 * frequency / (4 * baud) + 1)
      ∧ 25 * ((frequency + baud - 1) / baud) < 4 * (25 * frequency / (4 * baud)) + 29 := by
  have whole := Nat.div_mul_le_self frequency baud
  have floor := Nat.lt_mul_div_succ frequency running
  have ceiling := Nat.div_mul_le_self (frequency + baud - 1) baud
  have least := Nat.div_mul_le_self (25 * frequency) (4 * baud)
  have most := Nat.lt_mul_div_succ (25 * frequency) (show 0 < 4 * baud by omega)
  generalize 25 * frequency / (4 * baud) = hundredths at *
  generalize frequency / baud = units at *
  generalize (frequency + baud - 1) / baud = above at *
  refine ⟨?_, ?_, ?_⟩
  · refine Nat.lt_of_mul_lt_mul_right (a := baud) ?_
    calc 4 * hundredths * baud
        = hundredths * (4 * baud) := by ring
      _ ≤ 25 * frequency := least
      _ < 25 * (baud * (units + 1)) := Nat.mul_lt_mul_of_pos_left floor (by decide)
      _ = 25 * (units + 1) * baud := by ring
  · refine Nat.lt_of_mul_lt_mul_right (a := baud) ?_
    calc 25 * units * baud
        = 25 * (units * baud) := by ring
      _ ≤ 25 * frequency := Nat.mul_le_mul_left _ whole
      _ < 4 * baud * (hundredths + 1) := most
      _ = 4 * (hundredths + 1) * baud := by ring
  · refine Nat.lt_of_mul_lt_mul_right (a := baud) ?_
    calc 25 * above * baud
        = 25 * (above * baud) := by ring
      _ ≤ 25 * (frequency + baud - 1) := Nat.mul_le_mul_left _ ceiling
      _ < 25 * frequency + 25 * baud := by omega
      _ ≤ 4 * baud * (hundredths + 1) + 25 * baud := Nat.add_le_add_right (Nat.le_of_lt most) _
      _ = (4 * hundredths + 29) * baud := by ring

theorem floor_le_ceiling {baud : Nat} (running : 0 < baud) (frequency : Nat)
    : frequency / baud ≤ (frequency + baud - 1) / baud :=
  Nat.div_le_div_right (by omega)

/-- The divisor of the clock that the instance runs on is near unless its carry is lost. -/
theorem near_own {baud : Nat} (running : 0 < baud) (frequency : Nat)
    : Near (25 * frequency / (4 * baud)) baud frequency
      ↔ 25 * frequency / (4 * baud) % 100 < 97 := by
  have ⟨most, _, above⟩ := hundredths_bounds running frequency
  have ordered := floor_le_ceiling running frequency
  unfold Near
  simp only
  split <;> omega

/-- The divisor of a clock of at most half or at least twice the frequency is not. -/
theorem not_near_apart {baud frequency other : Nat} (running : 0 < baud)
    (least : 16 ≤ frequency / baud)
    (apart : 2 * other ≤ frequency ∨ 2 * frequency ≤ other)
    : ¬Near (25 * other / (4 * baud)) baud frequency := by
  have ⟨most, whole, _⟩ := hundredths_bounds running other
  have ordered := floor_le_ceiling running frequency
  have units : 2 * (other / baud) ≤ frequency / baud
      ∨ 2 * (frequency / baud) ≤ other / baud :=
    apart.imp
      (fun half => (Nat.mul_div_le_mul_div_assoc _ _ _).trans (Nat.div_le_div_right half))
      (fun twice => (Nat.mul_div_le_mul_div_assoc _ _ _).trans (Nat.div_le_div_right twice))
  unfold Near
  simp only
  generalize 25 * other / (4 * baud) = hundredths at *
  intro ⟨least, near⟩
  split at near
  · omega
  · rename_i lost
    rw [if_neg lost] at least
    rcases units with half | twice
    · omega
    · have few : frequency / baud ≤ 17 := by omega
      have bounds : 199 < hundredths ∧ hundredths < 216 := by omega
      have second : hundredths / 100 = 2 := by omega
      omega

/-- The clock read has listed dividers, and it is that of the instance with a fraction that
keeps its carry; or it is another one whose product wraps around, or whose divisor does, and
which comes near by that.
-/
def ClockServes (inst : Instance) (baud : Nat) (rcc : Rcc) : Prop :=
  let frequency := encodedFrequency inst.busClock rcc
  let other := encodedFrequency inst.apbclock rcc
  Decoded inst.apbclock rcc
  ∧ ((other = frequency ∧ 25 * frequency / (4 * baud) % 100 < 97)
    ∨ (other ≠ frequency
      ∧ (0x100000000 ≤ 25 * other ∨ 65536 * baud ≤ other)
      ∧ Near (25 * other % 0x100000000 / (4 * baud) % 409600) baud frequency))

/-- The register is accurate for the clock of the instance exactly when the clock that is read,
that of the other bus, serves for it.
-/
theorem uartSetBaudRate_accurate_iff (inst : Instance) (baud : UInt32) (s : Board)
    (product : 25 * encodedFrequency inst.busClock s.rcc < 0x100000000)
    (quarter : 4 * baud.toNat < 0x100000000)
    (least : 16 ≤ encodedFrequency inst.busClock s.rcc / baud.toNat)
    (most : encodedFrequency inst.busClock s.rcc / baud.toNat < 65536)
    : (∃ baudr,
        baudrStored inst baud s = some baudr
        ∧ Accurate baudr.toNat baud.toNat (encodedFrequency inst.busClock s.rcc))
      ↔ ClockServes inst baud.toNat s.rcc := by
  have running : 0 < baud.toNat := Nat.pos_of_ne_zero fun zero => by
    rw [zero, Nat.div_zero] at least
    omega
  have apart := apbclock_apart inst s.rcc
  unfold ClockServes
  simp only
  generalize encodedFrequency inst.busClock s.rcc = frequency at *
  rcases baudrStored_eq inst running quarter s with ⟨decoded, stored⟩ | ⟨not, stored⟩
  · generalize encodedFrequency inst.apbclock s.rcc = other at *
    obtain ⟨baudr, found, value⟩ := Option.map_eq_some_iff.mp stored
    have accurate : (∃ baudr,
        baudrStored inst baud s = some baudr ∧ Accurate baudr.toNat baud.toNat frequency)
        ↔ Near (25 * other % 0x100000000 / (4 * baud.toNat) % 409600) baud.toNat frequency := by
      rw [← accurate_sixteenths running, ← value, found]
      simp only [Option.some.injEq, exists_eq_left']
    rw [accurate, and_iff_right decoded]
    have straight : 25 * other < 0x100000000 → other < 65536 * baud.toNat
        → 25 * other % 0x100000000 / (4 * baud.toNat) % 409600
          = 25 * other / (4 * baud.toNat) := fun noWrap narrow => by
      rw [Nat.mod_eq_of_lt noWrap, Nat.mod_eq_of_lt]
      rw [Nat.div_lt_iff_lt_mul (by omega)]
      omega
    by_cases same : other = frequency
    · have narrow : frequency < 65536 * baud.toNat := (Nat.div_lt_iff_lt_mul running).mp most
      subst same
      rw [straight product narrow, near_own running]
      exact ⟨fun near => .inl ⟨rfl, near⟩, fun serves => serves.elim And.right fun wrong =>
        absurd rfl wrong.1⟩
    · refine ⟨fun near => .inr ⟨same, ?_, near⟩, fun serves => serves.elim
        (fun own => absurd own.1 same) fun wrapped => wrapped.2.2⟩
      by_contra none
      rw [not_or, Nat.not_le, Nat.not_le] at none
      rw [straight none.1 none.2] at near
      exact not_near_apart running least (apart.resolve_left same) near
  · refine iff_of_false (fun ⟨baudr, found, _⟩ => ?_) fun serves => not serves.1
    rw [stored] at found
    cases found

/-- A board that runs at 72 MHz, with this configuration of its clocks. -/
def board72MHz (cfg : UInt32) : Board :=
  {
    rcc := { cfg, apb1en := 0, apb2en := 0, systemCoreClock := 72000000 }
    usart := fun _ => { baudr := 0, ctrl1 := 0, ctrl2 := 0, ctrl3 := 0 }
  }

/-- With undivided buses. -/
theorem uartSetBaudRate_accurate_undivided
    : (∃ baudr,
        baudrStored .usart1 115200 (board72MHz 0) = some baudr
        ∧ Accurate baudr.toNat (115200 : UInt32).toNat
            (encodedFrequency Instance.usart1.busClock (board72MHz 0).rcc))
      ↔ ClockServes .usart1 (115200 : UInt32).toNat (board72MHz 0).rcc :=
  uartSetBaudRate_accurate_iff .usart1 115200 (board72MHz 0) (by decide) (by decide) (by decide)
    (by decide)

/-- With half the frequency on APB1 the rate of USART1, which runs on APB2, is the double of
what is asked for.
-/
theorem uartSetBaudRate_otherBus
    : (25 * encodedFrequency Instance.usart1.busClock (board72MHz 0x0400).rcc < 0x100000000
        ∧ 4 * (115200 : UInt32).toNat < 0x100000000
        ∧ 16
          ≤ encodedFrequency Instance.usart1.busClock (board72MHz 0x0400).rcc
              / (115200 : UInt32).toNat
        ∧ encodedFrequency Instance.usart1.busClock (board72MHz 0x0400).rcc
              / (115200 : UInt32).toNat
          < 65536)
      ∧ ¬∃ baudr,
          baudrStored .usart1 115200 (board72MHz 0x0400) = some baudr
          ∧ Accurate baudr.toNat (115200 : UInt32).toNat
              (encodedFrequency Instance.usart1.busClock (board72MHz 0x0400).rcc) := by
  refine ⟨by decide, fun ⟨baudr, stored, accurate⟩ => ?_⟩
  have half : baudrStored .usart1 115200 (board72MHz 0x0400) = some 312 := by decide
  obtain rfl : 312 = baudr := Option.some.inj (half.symm.trans stored)
  exact absurd accurate.2 (by decide)

end At32.Uart
