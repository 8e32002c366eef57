import At32.Drivers.Uart

/-! The clock driver and the USART driver together: how near the baud rate register comes to the
clock that was set up before it.
-/

namespace At32.Uart

open Clock LastWrite
open SystemClk (Call PllClkMul Reliable kept run run_cfg run_append_singleton)

/-- The frequency of the bus that an instance is on, as the clock registers select it. -/
def Instance.busFrequency (inst : Instance) (rcc : Rcc) : Option Nat :=
  (SystemClk.frequency rcc.cfg).map fun core =>
    core / ahbDivider (ahbCode rcc)
      / apbDivider (if inst.busClock = .pclk2 then apb2Code rcc else apb1Code rcc)

/-- The clock registers are those that calls of the clock driver left. -/
structure ClockedBy (calls : List Call) (rcc : Rcc) : Prop where
  cfg : rcc.cfg = (run calls).cfg
  systemCoreClock : rcc.systemCoreClock = (run calls).systemCoreClock

-----------------------------------------------------------------------------------------
-- What the clock driver leaves
-----------------------------------------------------------------------------------------

/-- AHB is not divided, both buses are divided alike, and a baud rate of a bus can be computed;
by cases on the last call and the last multiplier.
-/
theorem cfg_codes {rcc : Rcc} {pll : Option PllClkMul} {call : Call}
    (cfg : rcc.cfg = kept pll ||| call.bits)
    : ahbCode rcc = 0
      ∧ apb1Code rcc = apb2Code rcc
      ∧ ApbListed (apb2Code rcc)
      ∧ 25 * (call.coreClock.toNat / apbDivider (apb2Code rcc)) < 0x100000000 := by
  simp only [ahbCode, apb1Code, apb2Code, cfg]
  cases call with
  | hsiEn | hseEn =>
      cases pll with
      | none => decide
      | some m => cases m <;> decide
  | pllEn n =>
      have fast : n.coreClock.toNat ≤ 200000000 := by cases n <;> decide
      have codes : (kept pll ||| Call.bits (.pllEn n)).toNat / 0x10 % 16 = 0
          ∧ (kept pll ||| Call.bits (.pllEn n)).toNat / 0x100 % 8 = 4
          ∧ (kept pll ||| Call.bits (.pllEn n)).toNat / 0x800 % 8 = 4 := by
        simp only [SystemClk.Call.bits]
        cases pll with
        | none => decide
        | some m => cases m <;> decide
      obtain ⟨ahb, apb1, apb2⟩ := codes
      rw [ahb, apb1, apb2]
      refine ⟨rfl, rfl, .inr (Nat.le_refl 4), ?_⟩
      have half : apbDivider 4 = 2 := rfl
      rw [half, SystemClk.Call.coreClock]
      omega

/-- A reliable last call runs at the frequency that it stores, by cases on the call. -/
theorem frequency_reliable {front : List Call} {call : Call}
    (reliable : call.ReliableIn (front ++ [call]))
    : SystemClk.frequency (run (front ++ [call])).cfg = some call.coreClock.toNat := by
  rw [run_cfg]
  cases call with
  | hsiEn | hseEn =>
      rw [(SystemClk.last_multiplier_none_iff _).mpr reliable]
      exact SystemClk.frequency_plain _ rfl
  | pllEn m =>
      rw [last_append_singleton]
      exact (SystemClk.frequency_pllEn_iff m).mpr reliable

/-- Behind reliable calls the frequency of the bus is the one that SystemCoreClock and the
dividers encode, for the clock that is read as for the one the instance runs on.
-/
theorem busFrequency_clocked {calls : List Call} (reliable : Reliable calls) {rcc : Rcc}
    (clocked : ClockedBy calls rcc) (inst : Instance)
    : inst.busFrequency rcc = some (encodedFrequency inst.busClock rcc)
      ∧ encodedFrequency inst.apbclock rcc = encodedFrequency inst.busClock rcc
      ∧ Decoded inst.apbclock rcc
      ∧ 25 * encodedFrequency inst.busClock rcc < 0x100000000 := by
  obtain ⟨call, final, reliable⟩ := reliable
  obtain ⟨front, rfl⟩ := List.getLast?_eq_some_iff.mp final
  have cfg := clocked.cfg.trans (run_cfg front call)
  have core : rcc.systemCoreClock = call.coreClock := by
    rw [clocked.systemCoreClock, run_append_singleton, call.apply_systemCoreClock]
  obtain ⟨ahb, same, listed, product⟩ := cfg_codes cfg
  have hclk : hclkFrequency rcc = call.coreClock.toNat := by
    rw [hclkFrequency, ahb, core]
    exact Nat.div_one _
  have whole : ahbDivider 0 = 1 := rfl
  rw [Instance.busFrequency, clocked.cfg, frequency_reliable reliable]
  cases inst <;>
    simp only [Instance.busClock, Instance.apbclock, encodedFrequency, Decoded, hclk, ahb, same,
      whole, reduceCtorEq, if_true, if_false, Option.map_some, Nat.div_one] <;>
    exact ⟨trivial, trivial, ⟨.inl rfl, listed⟩, product⟩

-----------------------------------------------------------------------------------------
-- The baud rate
-----------------------------------------------------------------------------------------

/-- The clocks that an instance needs change no frequency. -/
theorem Instance.enable_encoded (inst : Instance) (clock : ClockFre) (rcc : Rcc)
    : encodedFrequency clock (inst.enable rcc) = encodedFrequency clock rcc := by
  obtain ⟨bit, _, ⟨_, enabled⟩ | ⟨_, enabled⟩⟩ := inst.enable_busClock rcc
  · rw [enabled]
    rfl
  · rw [enabled]
    rfl

theorem Instance.enable_clocked (inst : Instance) {calls : List Call} {rcc : Rcc}
    (clocked : ClockedBy calls rcc)
    : ClockedBy calls (inst.enable rcc) := by
  obtain ⟨bit, _, ⟨_, enabled⟩ | ⟨_, enabled⟩⟩ := inst.enable_busClock rcc
  · rw [enabled]
    exact ⟨clocked.cfg, clocked.systemCoreClock⟩
  · rw [enabled]
    exact ⟨clocked.cfg, clocked.systemCoreClock⟩

/-- UART_Init ends with UART_SetBaudRate, with the clock of the instance enabled. -/
theorem uartInit_eq {number : UInt32} {inst : Instance} (found : uartList number = some inst)
    (baudrate : UInt32) (s : Board)
    : ∃ middle : Board,
        middle.rcc = inst.enable s.rcc
        ∧ uartInit number baudrate s
          = (uartSetBaudRate inst baudrate middle).map fun after => (1, after) := by
  let reset (usart : Usart) : Usart :=
    { usart with
      ctrl1 := usart.ctrl1 &&& CTRL1_MASK ||| (USART_CTRL1_REN ||| USART_CTRL1_TEN)
      ctrl2 := usart.ctrl2 &&& CTRL2_STOP_Mask
      ctrl3 := usart.ctrl3 &&& CTRL3_Mask }
  refine ⟨Board.modify { s with rcc := inst.enable s.rcc } inst reset, rfl, ?_⟩
  simp only [uartInit, found]
  cases uartSetBaudRate inst baudrate (Board.modify { s with rcc := inst.enable s.rcc } inst reset)
    <;> rfl

/-- The register for a bus, where the clock read has the frequency of the bus. -/
theorem baudrStored_accurate_iff {inst : Instance} {baud : UInt32} {s : Board}
    (same : encodedFrequency inst.apbclock s.rcc = encodedFrequency inst.busClock s.rcc)
    (decoded : Decoded inst.apbclock s.rcc)
    (product : 25 * encodedFrequency inst.busClock s.rcc < 0x100000000)
    (least : 16 ≤ encodedFrequency inst.busClock s.rcc / baud.toNat)
    (most : encodedFrequency inst.busClock s.rcc / baud.toNat < 65536)
    : ∃ baudr,
        baudrStored inst baud s = some baudr
        ∧ (Accurate baudr.toNat baud.toNat (encodedFrequency inst.busClock s.rcc)
          ↔ 25 * encodedFrequency inst.busClock s.rcc / (4 * baud.toNat) % 100 < 97) := by
  generalize encodedFrequency inst.busClock s.rcc = frequency at *
  have running : 0 < baud.toNat := Nat.pos_of_ne_zero fun zero => by
    rw [zero, Nat.div_zero] at least
    omega
  have few : 16 * baud.toNat ≤ frequency := (Nat.le_div_iff_mul_le running).mp least
  have narrow : frequency < 65536 * baud.toNat := (Nat.div_lt_iff_lt_mul running).mp most
  obtain ⟨_, stored⟩ | ⟨not, _⟩ := baudrStored_eq inst running (by omega) s
  · have straight : 25 * frequency % 0x100000000 / (4 * baud.toNat) % 409600
        = 25 * frequency / (4 * baud.toNat) := by
      rw [Nat.mod_eq_of_lt product, Nat.mod_eq_of_lt]
      rw [Nat.div_lt_iff_lt_mul (by omega)]
      omega
    rw [same, straight] at stored
    obtain ⟨baudr, found, value⟩ := Option.map_eq_some_iff.mp stored
    refine ⟨baudr, found, ?_⟩
    rw [value, accurate_sixteenths running, near_own running]
  · exact absurd decoded not

/-- Behind any reliable calls of the clock driver, on a board whatever its other registers hold,
UART_Init returns 1 for every instance, and the rate is accurate for the bus that the instance is
on, as the clock registers select it, unless the fraction of the divisor loses its carry: that
the clock of the other bus is read does no harm.
-/
theorem uartInit_clocked (calls : List Call) (reliable : Reliable calls) (number : UInt32)
    (inst : Instance) (found : uartList number = some inst) (baudrate : UInt32) (s : Board)
    (clocked : ClockedBy calls s.rcc) (bus : Nat) (selected : inst.busFrequency s.rcc = some bus)
    (least : 16 ≤ bus / baudrate.toNat) (most : bus / baudrate.toNat < 65536)
    : ∃ after,
        uartInit number baudrate s = some (1, after)
        ∧ (Accurate (after.usart inst).baudr.toNat baudrate.toNat bus
          ↔ 25 * bus / (4 * baudrate.toNat) % 100 < 97) := by
  obtain ⟨middle, rcc, init⟩ := uartInit_eq found baudrate s
  obtain ⟨same, own, decoded, product⟩ :=
    busFrequency_clocked reliable (inst.enable_clocked clocked) inst
  obtain ⟨here, _⟩ := busFrequency_clocked reliable clocked inst
  have frequency : encodedFrequency inst.busClock (inst.enable s.rcc) = bus := by
    rw [inst.enable_encoded]
    exact Option.some.inj (here.symm.trans selected)
  rw [← rcc] at own decoded frequency product
  subst frequency
  obtain ⟨baudr, stored, accurate⟩ := baudrStored_accurate_iff own decoded product least most
  obtain ⟨after, set, value⟩ := Option.map_eq_some_iff.mp stored
  refine ⟨after, by rw [init, set]; rfl, ?_⟩
  rw [value]
  exact accurate

/-- A board with these clock registers. -/
def clockedBoard (calls : List Call) : Board :=
  {
    rcc :=
      {
        cfg := (run calls).cfg
        apb1en := 0
        apb2en := 0
        systemCoreClock := (run calls).systemCoreClock
      }
    usart := fun _ => { baudr := 0, ctrl1 := 0, ctrl2 := 0, ctrl3 := 0 }
  }

/-- The debug port behind SysClk_PLLEN, with both buses at 96 MHz. -/
theorem uartInit_clocked_192MHz
    : ∃ after,
        uartInit HW_USART1 115200 (clockedBoard [.pllEn .mhz192]) = some (1, after)
        ∧ (Accurate (after.usart .usart1).baudr.toNat (115200 : UInt32).toNat 96000000
          ↔ 25 * 96000000 / (4 * (115200 : UInt32).toNat) % 100 < 97) :=
  uartInit_clocked [.pllEn .mhz192] ⟨_, rfl, trivial⟩ HW_USART1 .usart1 rfl 115200
    (clockedBoard [.pllEn .mhz192]) ⟨rfl, rfl⟩ 96000000 (by decide) (by decide) (by decide)

end At32.Uart
