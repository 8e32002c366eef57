import At32.Drivers.Clock
import Mathlib.Data.List.Induction

/-! The SPI driver: its configuration functions, and when the rate follows the last call that
sets it.
-/

namespace At32.Spi

open BitField
open Clock (Rcc)

abbrev RCC_APB2EN_SPI1EN : UInt32 := 0x00001000
abbrev RCC_APB1EN_SPI2EN : UInt32 := 0x00004000
abbrev RCC_APB1EN_SPI3EN : UInt32 := 0x00008000
abbrev RCC_APB1EN_SPI4EN : UInt32 := 0x00010000

abbrev SPI_CPOLY_RESET : BitVec 16 := 0x0007
abbrev SPI_CR1_Mask : BitVec 16 := 0xE9F3
abbrev SPI_MODE_SEL : BitVec 16 := 0xF7FF
abbrev SPI_BAUDRATEMask : BitVec 16 := 0xFFC7

abbrev SPI_CTRL1_MSTEN : BitVec 16 := 0x0004
abbrev SPI_CTRL1_MCLKP : BitVec 16 := 0x0038
abbrev SPI_CTRL1_SPIEN : BitVec 16 := 0x0040
abbrev SPI_CTRL1_LSBEN : BitVec 16 := 0x0080
abbrev SPI_CTRL1_ISS : BitVec 16 := 0x0100
abbrev SPI_CTRL1_SWNSSEN : BitVec 16 := 0x0200
abbrev SPI_CTRL2_MCLKP_3 : BitVec 16 := 0x0100

abbrev SPI_BAUDRATE_4 : BitVec 32 := 0x0008
abbrev SPI_BAUDRATE_512 : BitVec 32 := 0x0100
abbrev SPI_BAUDRATE_1024 : BitVec 32 := 0x0108

/-- The entries of SPI_list. -/
inductive HwSpi
  | spi1
  | spi2
  | spi3
  | spi4
  deriving DecidableEq, Repr

/-- The registers of an instance that are configured. -/
structure Registers where
  ctrl1 : BitVec 16
  ctrl2 : BitVec 16
  cpoly : BitVec 16
  i2sctrl : BitVec 16
  deriving DecidableEq, Repr

/-- SPI_Cmd -/
def spiCmd (status : Bool) (s : Registers) : Registers :=
  if status then { s with ctrl1 := s.ctrl1 ||| SPI_CTRL1_SPIEN }
  else { s with ctrl1 := s.ctrl1 &&& ~~~SPI_CTRL1_SPIEN }

/-- The loop that waits while the status shows BSY, by recursion on how many readings do. -/
def waitBusy : (busy : Nat) → Registers → Registers
  | 0, s => s
  | busy + 1, s => waitBusy busy s

/-- SPI_SetBaud -/
def spiSetBaud (busy : Nat) (baud : BitVec 32) (s : Registers) : Registers :=
  let s := waitBusy busy s
  let s := spiCmd false s
  let s : Registers := { s with ctrl1 := s.ctrl1 &&& SPI_BAUDRATEMask }
  let s : Registers :=
    if baud = SPI_BAUDRATE_512 then { s with ctrl2 := s.ctrl2 ||| baud.setWidth 16 } else s
  let s : Registers :=
    if baud = SPI_BAUDRATE_1024 then
      { s with
        ctrl1 := s.ctrl1 ||| SPI_BAUDRATE_4.setWidth 16
        ctrl2 := s.ctrl2 ||| SPI_BAUDRATE_512.setWidth 16 }
    else
      { s with ctrl1 := s.ctrl1 ||| baud.setWidth 16 }
  spiCmd true s

/-- The clock registers and those of every instance. -/
structure Board where
  rcc : Rcc
  spi : HwSpi → Registers

/-- The first statements of SPI_Init. -/
def HwSpi.enable (spix : HwSpi) (rcc : Rcc) : Rcc :=
  match spix with
  | .spi1 => { rcc with apb2en := rcc.apb2en ||| RCC_APB2EN_SPI1EN }
  | .spi2 => { rcc with apb1en := rcc.apb1en ||| RCC_APB1EN_SPI2EN }
  | .spi3 => { rcc with apb1en := rcc.apb1en ||| RCC_APB1EN_SPI3EN }
  | .spi4 => { rcc with apb1en := rcc.apb1en ||| RCC_APB1EN_SPI4EN }

/-- SPI_Init -/
def spiInit (spix : HwSpi) (baud : BitVec 32) (s : Board) : Board :=
  let registers := s.spi spix
  let ctrl2 := registers.ctrl2 &&& ~~~SPI_CTRL2_MCLKP_3
  let ctrl1 := registers.ctrl1 &&& SPI_CR1_Mask
  let ctrl1 :=
    ctrl1 ||| (SPI_CTRL1_MSTEN ||| SPI_CTRL1_ISS ||| SPI_CTRL1_SWNSSEN ||| baud.setWidth 16)
  let ctrl1 := ctrl1 &&& ~~~SPI_CTRL1_LSBEN
  let i2sctrl := registers.i2sctrl &&& SPI_MODE_SEL
  let registers := spiCmd true { ctrl1, ctrl2, cpoly := SPI_CPOLY_RESET, i2sctrl }
  { rcc := spix.enable s.rcc, spi := Function.update s.spi spix registers }

-----------------------------------------------------------------------------------------
-- Rates
-----------------------------------------------------------------------------------------

/-- SPI_BAUDRATE_2 to SPI_BAUDRATE_1024 -/
inductive Baudrate
  | by2
  | by4
  | by8
  | by16
  | by32
  | by64
  | by128
  | by256
  | by512
  | by1024
  deriving DecidableEq, Repr

def Baudrate.bits : Baudrate → BitVec 32
  | .by2 => 0x0000
  | .by4 => 0x0008
  | .by8 => 0x0010
  | .by16 => 0x0018
  | .by32 => 0x0020
  | .by64 => 0x0028
  | .by128 => 0x0030
  | .by256 => 0x0038
  | .by512 => SPI_BAUDRATE_512
  | .by1024 => SPI_BAUDRATE_1024

def Baudrate.divider : Baudrate → Nat
  | .by2 => 2
  | .by4 => 4
  | .by8 => 8
  | .by16 => 16
  | .by32 => 32
  | .by64 => 64
  | .by128 => 128
  | .by256 => 256
  | .by512 => 512
  | .by1024 => 1024

/-- The rates that need the bit of CTRL2. -/
def Baudrate.high : Baudrate → Bool
  | .by512 | .by1024 => true
  | _ => false

/-- The divider that bits 5:3 of CTRL1 and bit 8 of CTRL2 encode. -/
def Registers.divider (s : Registers) : Nat :=
  2 ^ ((if s.ctrl2.getLsbD 8 then 8 else 0) + (s.ctrl1.extractLsb' 3 3).toNat + 1)

/-- The divider is that of the last call, and all other bits but SPIEN are as they were. -/
structure FollowsLast (calls : List (Nat × Baudrate)) (before after : Registers) : Prop where
  divider : ∀ call, calls.getLast? = some call → after.divider = call.2.divider
  ctrl1 : after.ctrl1 &&& ~~~(SPI_CTRL1_MCLKP ||| SPI_CTRL1_SPIEN)
    = before.ctrl1 &&& ~~~(SPI_CTRL1_MCLKP ||| SPI_CTRL1_SPIEN)
  ctrl2 : after.ctrl2 &&& ~~~SPI_CTRL2_MCLKP_3 = before.ctrl2 &&& ~~~SPI_CTRL2_MCLKP_3

/-- A sequence of calls of SPI_SetBaud, each with how many readings show the port busy. -/
def setBauds (calls : List (Nat × Baudrate)) (s : Registers) : Registers :=
  calls.foldl (fun s call => spiSetBaud call.1 call.2.bits s) s

theorem setBauds_append_singleton (calls : List (Nat × Baudrate)) (call : Nat × Baudrate)
    (s : Registers)
    : setBauds (calls ++ [call]) s = spiSetBaud call.1 call.2.bits (setBauds calls s) := by
  rw [setBauds, List.foldl_append]
  rfl

theorem waitBusy_eq (busy : Nat) (s : Registers) : waitBusy busy s = s := by
  induction busy with
  | zero => rfl
  | succ busy ih => exact ih

/-- The bits of a rate in CTRL1; that of SPI_BAUDRATE_512 is ISS there. -/
def Baudrate.ctrl1 : Baudrate → BitVec 16
  | .by1024 => 0x0008
  | rate => rate.bits.setWidth 16

/-- The code of a rate but its highest bit. -/
def Baudrate.low (rate : Baudrate) : BitVec 3 := rate.ctrl1.extractLsb' 3 3

theorem Baudrate.divider_eq (rate : Baudrate)
    : rate.divider = 2 ^ ((if rate.high then 8 else 0) + rate.low.toNat + 1) := by
  cases rate <;> rfl

theorem spiSetBaud_ctrl1 (busy : Nat) (rate : Baudrate) (s : Registers)
    : (spiSetBaud busy rate.bits s).ctrl1
      = s.ctrl1 &&& ~~~SPI_CTRL1_SPIEN &&& SPI_BAUDRATEMask ||| rate.ctrl1
        ||| SPI_CTRL1_SPIEN := by
  unfold spiSetBaud
  rw [waitBusy_eq]
  cases rate <;> rfl

theorem spiSetBaud_ctrl2 (busy : Nat) (rate : Baudrate) (s : Registers)
    : (spiSetBaud busy rate.bits s).ctrl2
      = if rate.high then s.ctrl2 ||| SPI_CTRL2_MCLKP_3 else s.ctrl2 := by
  unfold spiSetBaud
  rw [waitBusy_eq]
  cases rate <;> rfl

/-- A bit that is set is not changed by joining it. -/
theorem or_iss {word : BitVec 16} (iss : word.getLsbD 8 = true)
    : word ||| SPI_CTRL1_ISS = word := by
  refine BitVec.eq_of_getLsbD_eq fun i _ => ?_
  refine (getLsbD_set word (show 8 < 16 by decide) i).trans ?_
  split
  · rename_i same
    rw [same, iss]
  · rfl

/-- With ISS set a call leaves all bits but those of the rate. -/
theorem spiSetBaud_others (busy : Nat) (rate : Baudrate) {s : Registers}
    (iss : s.ctrl1.getLsbD 8 = true)
    : (spiSetBaud busy rate.bits s).ctrl1 &&& ~~~(SPI_CTRL1_MCLKP ||| SPI_CTRL1_SPIEN)
      = s.ctrl1 &&& ~~~(SPI_CTRL1_MCLKP ||| SPI_CTRL1_SPIEN) := by
  have masks : ~~~SPI_CTRL1_SPIEN &&& (SPI_BAUDRATEMask
      &&& ~~~(SPI_CTRL1_MCLKP ||| SPI_CTRL1_SPIEN))
      = ~~~(SPI_CTRL1_MCLKP ||| SPI_CTRL1_SPIEN) := rfl
  have enable : SPI_CTRL1_SPIEN &&& ~~~(SPI_CTRL1_MCLKP ||| SPI_CTRL1_SPIEN) = 0#16 := rfl
  have joined : rate.ctrl1 &&& ~~~(SPI_CTRL1_MCLKP ||| SPI_CTRL1_SPIEN) = 0#16
      ∨ rate.ctrl1 &&& ~~~(SPI_CTRL1_MCLKP ||| SPI_CTRL1_SPIEN)
        = SPI_CTRL1_ISS &&& ~~~(SPI_CTRL1_MCLKP ||| SPI_CTRL1_SPIEN) := by
    cases rate <;> decide
  rw [spiSetBaud_ctrl1, BitVec.and_or_distrib_right, BitVec.and_or_distrib_right, enable,
    BitVec.or_zero, BitVec.and_assoc, BitVec.and_assoc, masks]
  rcases joined with none | reset
  · rw [none, BitVec.or_zero]
  · rw [reset, ← BitVec.and_or_distrib_right, or_iss iss]

/-- The rate replaces the one before in CTRL1. -/
theorem spiSetBaud_low (busy : Nat) (rate : Baudrate) (s : Registers)
    : (spiSetBaud busy rate.bits s).ctrl1.extractLsb' 3 3 = rate.low := by
  have cleared : SPI_BAUDRATEMask.extractLsb' 3 3 = 0#3 := rfl
  have enable : SPI_CTRL1_SPIEN.extractLsb' 3 3 = 0#3 := rfl
  rw [spiSetBaud_ctrl1, BitVec.extractLsb'_or, BitVec.extractLsb'_or, BitVec.extractLsb'_and,
    cleared, enable, BitVec.and_zero, BitVec.zero_or, BitVec.or_zero]
  rfl

/-- Registers in which the internal select is set and the rate has no high bit. -/
structure Initialised (s : Registers) : Prop where
  iss : s.ctrl1.getLsbD 8 = true
  low : s.ctrl2.getLsbD 8 = false

theorem spiInit_initialised (spix : HwSpi) (baud : BitVec 32) (s : Board)
    : Initialised ((spiInit spix baud s).spi spix) := by
  simp only [spiInit, Function.update_self]
  exact
    {
      iss := by simp [spiCmd]
      low := by simp [spiCmd]
    }

/-- The registers behind calls of SPI_SetBaud. -/
structure Kept (calls : List (Nat × Baudrate)) (before after : Registers) : Prop where
  ctrl1 : after.ctrl1 &&& ~~~(SPI_CTRL1_MCLKP ||| SPI_CTRL1_SPIEN)
    = before.ctrl1 &&& ~~~(SPI_CTRL1_MCLKP ||| SPI_CTRL1_SPIEN)
  ctrl2 : after.ctrl2
    = if calls.any (fun call => call.2.high) then before.ctrl2 ||| SPI_CTRL2_MCLKP_3
      else before.ctrl2

/-- ISS is among the bits kept. -/
theorem Kept.iss {calls : List (Nat × Baudrate)} {before after : Registers}
    (kept : Kept calls before after) (iss : before.ctrl1.getLsbD 8 = true)
    : after.ctrl1.getLsbD 8 = true := by
  have bit := congrArg (fun word => word.getLsbD 8) kept.ctrl1
  have mask : (~~~(SPI_CTRL1_MCLKP ||| SPI_CTRL1_SPIEN)).getLsbD 8 = true := rfl
  simp only [BitVec.getLsbD_and, mask, Bool.and_true] at bit
  rw [bit, iss]

/-- What any calls leave; by induction on the calls from the last one. -/
theorem setBauds_kept {s : Registers} (iss : s.ctrl1.getLsbD 8 = true)
    (calls : List (Nat × Baudrate))
    : Kept calls s (setBauds calls s) := by
  induction calls using List.reverseRecOn with
  | nil => exact { ctrl1 := rfl, ctrl2 := rfl }
  | append_singleton calls call ih =>
      rw [setBauds_append_singleton]
      constructor
      · rw [spiSetBaud_others _ _ (ih.iss iss), ih.ctrl1]
      · rw [spiSetBaud_ctrl2, ih.ctrl2, List.any_append, List.any_cons, List.any_nil]
        cases calls.any (fun call => call.2.high) with
        | false => cases call.2.high <;> rfl
        | true =>
            cases call.2.high with
            | false => rfl
            | true => exact (BitVec.or_assoc _ _ _).trans (congrArg _ BitVec.or_self)

/-- The divider that any calls leave has the low bits of the last rate and the high bit of any
rate.
-/
theorem setBauds_divider {s : Registers} (initialised : Initialised s)
    (calls : List (Nat × Baudrate)) (call : Nat × Baudrate)
    : (setBauds (calls ++ [call]) s).divider
      = 2 ^ ((if (calls ++ [call]).any (fun call => call.2.high) then 8 else 0)
          + call.2.low.toNat + 1) := by
  have kept := setBauds_kept initialised.iss (calls ++ [call])
  have low : (setBauds (calls ++ [call]) s).ctrl1.extractLsb' 3 3 = call.2.low := by
    rw [setBauds_append_singleton]
    exact spiSetBaud_low _ _ _
  have high : (setBauds (calls ++ [call]) s).ctrl2.getLsbD 8
      = (calls ++ [call]).any (fun call => call.2.high) := by
    rw [kept.ctrl2]
    cases (calls ++ [call]).any (fun call => call.2.high) with
    | false => exact initialised.low
    | true => exact (getLsbD_set s.ctrl2 (show 8 < 16 by decide) 8).trans (if_pos rfl)
  rw [Registers.divider, low, high]

/-- The dividers of two codes with the same low bits are equal exactly when the high bits are. -/
theorem divider_eq_iff (high other : Bool) (low : Nat)
    : 2 ^ ((if high then 8 else 0) + low + 1) = 2 ^ ((if other then 8 else 0) + low + 1)
      ↔ high = other := by
  rw [Nat.pow_right_inj (by decide)]
  cases high <;> cases other <;> simp

/-- From registers that SPI_Init leaves, the rate follows the last call and all else is kept
exactly when the last rate is 512 or 1024, or no rate was.
-/
theorem spiSetBaud_followsLast_iff (spix : HwSpi) (baud : BitVec 32) (s : Board)
    (calls : List (Nat × Baudrate))
    : FollowsLast calls ((spiInit spix baud s).spi spix)
        (setBauds calls ((spiInit spix baud s).spi spix))
      ↔ ∀ call,
          calls.getLast? = some call
          → call.2.high = true ∨ ∀ earlier ∈ calls, earlier.2.high = false := by
  have initialised := spiInit_initialised spix baud s
  generalize (spiInit spix baud s).spi spix = registers at *
  have kept := setBauds_kept initialised.iss calls
  have others : (setBauds calls registers).ctrl2 &&& ~~~SPI_CTRL2_MCLKP_3
      = registers.ctrl2 &&& ~~~SPI_CTRL2_MCLKP_3 := by
    rw [kept.ctrl2]
    split
    · rw [BitVec.and_or_distrib_right, BitVec.and_not_self]
      exact BitVec.or_zero
    · rfl
  have parts : FollowsLast calls registers (setBauds calls registers)
      ↔ ∀ call,
          calls.getLast? = some call
          → (setBauds calls registers).divider = call.2.divider :=
    ⟨fun follows => follows.divider, fun divider =>
      { divider, ctrl1 := kept.ctrl1, ctrl2 := others }⟩
  rw [parts]
  refine forall₂_congr fun call ended => ?_
  obtain ⟨before, rfl⟩ := List.getLast?_eq_some_iff.mp ended
  rw [setBauds_divider initialised, call.2.divider_eq, divider_eq_iff, List.any_append]
  cases high : call.2.high with
  | true => simp [high]
  | false =>
      rw [List.forall_mem_append, List.forall_mem_singleton]
      simp [high]

/-- A board as after a reset. -/
def resetBoard : Board :=
  {
    rcc := { cfg := 0, apb1en := 0, apb2en := 0, systemCoreClock := 8000000 }
    spi := fun _ => { ctrl1 := 0, ctrl2 := 0, cpoly := 7, i2sctrl := 0 }
  }

/-- The rate of the first call stays in the bit of CTRL2: behind a call for 2 the divider is 512.
-/
theorem spiSetBaud_staysHigh
    : ¬FollowsLast [(0, .by512), (0, .by2)] ((spiInit .spi1 0x0008 resetBoard).spi .spi1)
        (setBauds [(0, .by512), (0, .by2)] ((spiInit .spi1 0x0008 resetBoard).spi .spi1)) := by
  intro follows
  exact absurd (follows.divider (0, .by2) rfl) (by decide)

end At32.Spi
