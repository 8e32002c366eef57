import At32.Drivers.SystemClk
import At32.Lib.BitField

/-! The frequencies that GetClock_Frequency computes, and when they are those that the clock
configuration register encodes.
-/

namespace At32.Clock

open BitField
open SystemClk (pllMult)

@[match_pattern] abbrev SYSTEM_1 : UInt32 := 0x0000
@[match_pattern] abbrev SYSTEM_2 : UInt32 := 0x0080
@[match_pattern] abbrev SYSTEM_4 : UInt32 := 0x0090
@[match_pattern] abbrev SYSTEM_8 : UInt32 := 0x00A0
@[match_pattern] abbrev SYSTEM_64 : UInt32 := 0x00C0
@[match_pattern] abbrev SYSTEM_128 : UInt32 := 0x00D0
@[match_pattern] abbrev SYSTEM_256 : UInt32 := 0x00E0
@[match_pattern] abbrev SYSTEM_512 : UInt32 := 0x00F0
@[match_pattern] abbrev HCLK_1 : UInt32 := 0x0000
@[match_pattern] abbrev HCLK_2 : UInt32 := 0x0004
@[match_pattern] abbrev HCLK_4 : UInt32 := 0x0005
@[match_pattern] abbrev HCLK_8 : UInt32 := 0x0006
@[match_pattern] abbrev HCLK_16 : UInt32 := 0x0007

abbrev PLL_FRAMASK1 : UInt32 := 0x60000000
abbrev PLL_FRAMASK2 : UInt32 := 0x003c0000
abbrev PLL_FRAMASK : UInt32 := 0x603C0000
abbrev AHB_FRAMASK : UInt32 := 0x00F0
abbrev APB1_FRAMASK : UInt32 := 0x0700
abbrev APB2_FRAMASK : UInt32 := 0x3800

/-- CLOCKFRE_t -/
inductive ClockFre
  | systemclock
  | hclk
  | pclk1
  | pclk2
  | hse
  | hsi
  | lse
  | lsi
  | pll
  deriving DecidableEq, Repr

/-- The clock registers that the drivers read and write, and SystemCoreClock. -/
structure Rcc where
  cfg : UInt32
  apb1en : UInt32
  apb2en : UInt32
  systemCoreClock : UInt32
  deriving DecidableEq, Repr

/-- A division, which has no result for a divisor of zero. -/
def divide (dividend divisor : UInt32) : Option UInt32 :=
  if divisor = 0 then none else some (dividend / divisor)

/-- The first statements of GetClock_Frequency: the divisor for HSE. -/
def pllFrafreval (cfg : UInt32) : UInt32 :=
  let pllFrafremask := PLL_FRAMASK &&& cfg
  let pllValue1 := pllFrafremask &&& PLL_FRAMASK1
  let pllValue2 := pllFrafremask &&& PLL_FRAMASK2
  let pllValue := pllValue1 ||| pllValue2
  if pllValue = 0 then 2
  else if pllValue < 50 ∧ pllValue > 1 then pllValue + 1
  else pllValue - 1

/-- The switch over the AHB field; there is no case SYSTEM_16. -/
def ahbDiv (field : UInt32) : UInt32 :=
  match field with
  | SYSTEM_1 => 1
  | SYSTEM_2 => 2
  | SYSTEM_4 => 4
  | SYSTEM_8 => 8
  | SYSTEM_64 => 64
  | SYSTEM_128 => 128
  | SYSTEM_256 => 256
  | SYSTEM_512 => 512
  | _ => 0

/-- The switches over the APB fields. -/
def apbDiv (field : UInt32) : UInt32 :=
  match field with
  | HCLK_1 => 1
  | HCLK_2 => 2
  | HCLK_4 => 4
  | HCLK_8 => 8
  | HCLK_16 => 16
  | _ => 0

/-- GetClock_Frequency -/
def getClockFrequency (clock : ClockFre) (rcc : Rcc) : Option UInt32 :=
  let ahb := ahbDiv (AHB_FRAMASK &&& rcc.cfg)
  let apb1 := apbDiv ((APB1_FRAMASK &&& rcc.cfg) >>> 8)
  let apb2 := apbDiv ((APB2_FRAMASK &&& rcc.cfg) >>> 11)
  match clock with
  | .pll | .systemclock => some rcc.systemCoreClock
  | .hsi => some (8 * 1000 * 1000)
  | .hse => do
      -- there is no break: the case goes on as that of LSI
      let _ ← divide rcc.systemCoreClock (pllFrafreval rcc.cfg)
      return 40 * 1000
  | .lsi => some (40 * 1000)
  | .lse => some 32768
  | .hclk => divide rcc.systemCoreClock ahb
  | .pclk1 => do divide (← divide rcc.systemCoreClock ahb) apb1
  | .pclk2 => do divide (← divide rcc.systemCoreClock ahb) apb2

-----------------------------------------------------------------------------------------
-- What the fields of the register encode
-----------------------------------------------------------------------------------------

def ahbCode (rcc : Rcc) : Nat := rcc.cfg.toNat / 0x10 % 16

def apb1Code (rcc : Rcc) : Nat := rcc.cfg.toNat / 0x100 % 8

def apb2Code (rcc : Rcc) : Nat := rcc.cfg.toNat / 0x800 % 8

/-- The divider of an AHB code, as the comments of RCC_CFG_AHBPSC_DIV1 to
RCC_CFG_AHBPSC_DIV512 give it.
-/
def ahbDivider : (code : Nat) → Nat
  | 8 => 2
  | 9 => 4
  | 10 => 8
  | 11 => 16
  | 12 => 64
  | 13 => 128
  | 14 => 256
  | 15 => 512
  | _ => 1

/-- The divider of an APB code, as the comments of RCC_CFG_APB1PSC_DIV1 to
RCC_CFG_APB1PSC_DIV16 give it.
-/
def apbDivider : (code : Nat) → Nat
  | 4 => 2
  | 5 => 4
  | 6 => 8
  | 7 => 16
  | _ => 1

def hclkFrequency (rcc : Rcc) : Nat := rcc.systemCoreClock.toNat / ahbDivider (ahbCode rcc)

/-- The frequency that the register and SystemCoreClock encode. -/
def encodedFrequency (clock : ClockFre) (rcc : Rcc) : Nat :=
  match clock with
  | .pll | .systemclock => rcc.systemCoreClock.toNat
  | .hsi => 8000000
  | .hse => rcc.systemCoreClock.toNat / pllMult rcc.cfg
  | .lsi => 40000
  | .lse => 32768
  | .hclk => hclkFrequency rcc
  | .pclk1 => hclkFrequency rcc / apbDivider (apb1Code rcc)
  | .pclk2 => hclkFrequency rcc / apbDivider (apb2Code rcc)

/-- The AHB codes that are case labels. -/
def AhbListed (code : Nat) : Prop := code = 0 ∨ (8 ≤ code ∧ code ≠ 11)

/-- The APB codes that are case labels. -/
def ApbListed (code : Nat) : Prop := code = 0 ∨ 4 ≤ code

/-- The codes of the dividers on the way to the clock are case labels, and the clock of HSE is
that of LSI.
-/
def Decoded (clock : ClockFre) (rcc : Rcc) : Prop :=
  match clock with
  | .hclk => AhbListed (ahbCode rcc)
  | .pclk1 => AhbListed (ahbCode rcc) ∧ ApbListed (apb1Code rcc)
  | .pclk2 => AhbListed (ahbCode rcc) ∧ ApbListed (apb2Code rcc)
  | .hse => rcc.systemCoreClock.toNat / pllMult rcc.cfg = 40000
  | _ => True

instance (code : Nat) : Decidable (AhbListed code) := by unfold AhbListed; infer_instance

instance (code : Nat) : Decidable (ApbListed code) := by unfold ApbListed; infer_instance

-----------------------------------------------------------------------------------------
-- The switches
-----------------------------------------------------------------------------------------

theorem ahbField_toNat (rcc : Rcc) : (AHB_FRAMASK &&& rcc.cfg).toNat = ahbCode rcc * 0x10 := by
  rw [UInt32.toNat_and]
  exact and_field rcc.cfg.toNat 4 4

theorem apb1Field_toNat (rcc : Rcc)
    : ((APB1_FRAMASK &&& rcc.cfg) >>> 8).toNat = apb1Code rcc := by
  rw [UInt32.toNat_shiftRight, UInt32.toNat_and, Nat.shiftRight_eq_div_pow]
  change (((2 ^ 3 - 1) * 2 ^ 8) &&& rcc.cfg.toNat) / 2 ^ 8 = _
  rw [and_field, Nat.mul_div_cancel _ (by decide)]
  rfl

theorem apb2Field_toNat (rcc : Rcc)
    : ((APB2_FRAMASK &&& rcc.cfg) >>> 11).toNat = apb2Code rcc := by
  rw [UInt32.toNat_shiftRight, UInt32.toNat_and, Nat.shiftRight_eq_div_pow]
  change (((2 ^ 3 - 1) * 2 ^ 11) &&& rcc.cfg.toNat) / 2 ^ 11 = _
  rw [and_field, Nat.mul_div_cancel _ (by decide)]
  rfl

/-- A listed code gives its divider and any other one zero, by cases on the code. -/
theorem ahbDiv_code {code : Nat} (inside : code < 16)
    : (ahbDiv (UInt32.ofNat (code * 0x10))).toNat
      = if AhbListed code then ahbDivider code else 0 := by
  have cases : ∀ code : Fin 16,
      (ahbDiv (UInt32.ofNat (code.val * 0x10))).toNat
        = if AhbListed code.val then ahbDivider code.val else 0 := by
    decide
  exact cases ⟨code, inside⟩

theorem apbDiv_code {code : Nat} (inside : code < 8)
    : (apbDiv (UInt32.ofNat code)).toNat = if ApbListed code then apbDivider code else 0 := by
  have cases : ∀ code : Fin 8,
      (apbDiv (UInt32.ofNat code.val)).toNat
        = if ApbListed code.val then apbDivider code.val else 0 := by
    decide
  exact cases ⟨code, inside⟩

theorem ahbDiv_toNat (rcc : Rcc)
    : (ahbDiv (AHB_FRAMASK &&& rcc.cfg)).toNat
      = if AhbListed (ahbCode rcc) then ahbDivider (ahbCode rcc) else 0 := by
  rw [← UInt32.ofNat_toNat (x := AHB_FRAMASK &&& rcc.cfg), ahbField_toNat]
  exact ahbDiv_code (Nat.mod_lt _ (by decide))

theorem apb1Div_toNat (rcc : Rcc)
    : (apbDiv ((APB1_FRAMASK &&& rcc.cfg) >>> 8)).toNat
      = if ApbListed (apb1Code rcc) then apbDivider (apb1Code rcc) else 0 := by
  rw [← UInt32.ofNat_toNat (x := (APB1_FRAMASK &&& rcc.cfg) >>> 8), apb1Field_toNat]
  exact apbDiv_code (Nat.mod_lt _ (by decide))

theorem apb2Div_toNat (rcc : Rcc)
    : (apbDiv ((APB2_FRAMASK &&& rcc.cfg) >>> 11)).toNat
      = if ApbListed (apb2Code rcc) then apbDivider (apb2Code rcc) else 0 := by
  rw [← UInt32.ofNat_toNat (x := (APB2_FRAMASK &&& rcc.cfg) >>> 11), apb2Field_toNat]
  exact apbDiv_code (Nat.mod_lt _ (by decide))

theorem ahbDivider_pos (code : Nat) : 0 < ahbDivider code := by
  unfold ahbDivider
  split <;> decide

theorem apbDivider_pos (code : Nat) : 0 < apbDivider code := by
  unfold apbDivider
  split <;> decide

theorem divide_toNat (dividend divisor : UInt32)
    : (divide dividend divisor).map UInt32.toNat
      = if divisor.toNat = 0 then none else some (dividend.toNat / divisor.toNat) := by
  unfold divide
  by_cases zero : divisor = 0
  · rw [if_pos zero, zero]
    rfl
  · have nonzero : divisor.toNat ≠ 0 := fun same => zero (UInt32.toNat_inj.mp same)
    rw [if_neg zero, if_neg nonzero, Option.map_some, UInt32.toNat_div]

/-- The divisor for HSE is never zero: the field of the multiplier has no bit 0. -/
theorem pllFrafreval_ne_zero (cfg : UInt32) : pllFrafreval cfg ≠ 0 := by
  have even : ((PLL_FRAMASK &&& cfg &&& PLL_FRAMASK1)
      ||| (PLL_FRAMASK &&& cfg &&& PLL_FRAMASK2)) &&& 1 = 0 := by
    rw [BitMask.or_and, UInt32.and_assoc, UInt32.and_assoc _ PLL_FRAMASK2]
    change (_ &&& (0 : UInt32)) ||| (_ &&& (0 : UInt32)) = 0
    rw [UInt32.and_zero, UInt32.or_self]
  intro zero
  simp only [pllFrafreval] at zero
  generalize (PLL_FRAMASK &&& cfg &&& PLL_FRAMASK1) ||| (PLL_FRAMASK &&& cfg &&& PLL_FRAMASK2)
    = pllValue at even zero
  split at zero
  · exact absurd zero (by decide)
  · split at zero
    · rename_i small
      have bound : pllValue.toNat < 50 := UInt32.lt_iff_toNat_lt.mp small.1
      have sum := congrArg UInt32.toNat zero
      rw [UInt32.toNat_add] at sum
      change (pllValue.toNat + 1) % 0x100000000 = 0 at sum
      omega
    · obtain rfl : pllValue = 1 := by
        rw [← UInt32.sub_add_cancel pllValue 1, zero]
        rfl
      exact absurd even (by decide)

theorem divide_pllFrafreval (rcc : Rcc)
    : ∃ quotient, divide rcc.systemCoreClock (pllFrafreval rcc.cfg) = some quotient :=
  ⟨_, if_neg (pllFrafreval_ne_zero rcc.cfg)⟩

-----------------------------------------------------------------------------------------
-- The frequencies
-----------------------------------------------------------------------------------------

theorem getClockFrequency_hclk (rcc : Rcc)
    : (getClockFrequency .hclk rcc).map UInt32.toNat
      = if AhbListed (ahbCode rcc) then some (hclkFrequency rcc) else none := by
  refine (divide_toNat _ _).trans ?_
  rw [ahbDiv_toNat]
  by_cases listed : AhbListed (ahbCode rcc)
  · rw [if_pos listed, if_neg (Nat.ne_of_gt (ahbDivider_pos _)), if_pos listed]
    rfl
  · rw [if_neg listed, if_pos rfl, if_neg listed]

/-- The clock of a bus behind that of AHB. -/
theorem divide_hclk (rcc : Rcc) {apb : UInt32} {code : Nat}
    (apbValue : apb.toNat = if ApbListed code then apbDivider code else 0)
    : (do divide (← getClockFrequency .hclk rcc) apb : Option UInt32).map UInt32.toNat
      = if AhbListed (ahbCode rcc) ∧ ApbListed code then
          some (hclkFrequency rcc / apbDivider code)
        else none := by
  have ahb := getClockFrequency_hclk rcc
  cases hclk : getClockFrequency .hclk rcc with
  | none =>
      have unlisted : ¬AhbListed (ahbCode rcc) := fun listed => by
        rw [hclk, if_pos listed] at ahb
        cases ahb
      rw [if_neg fun both => unlisted both.1]
      rfl
  | some frequency =>
      rw [hclk] at ahb
      by_cases listed : AhbListed (ahbCode rcc)
      · rw [if_pos listed] at ahb
        refine (divide_toNat frequency apb).trans ?_
        rw [apbValue, Option.some.inj ahb]
        by_cases apbListed : ApbListed code
        · rw [if_pos apbListed, if_neg (Nat.ne_of_gt (apbDivider_pos _)),
            if_pos ⟨listed, apbListed⟩]
        · rw [if_neg apbListed, if_pos rfl, if_neg fun both => apbListed both.2]
      · rw [if_neg listed] at ahb
        cases ahb

theorem getClockFrequency_pclk1 (rcc : Rcc)
    : (getClockFrequency .pclk1 rcc).map UInt32.toNat
      = if AhbListed (ahbCode rcc) ∧ ApbListed (apb1Code rcc) then
          some (hclkFrequency rcc / apbDivider (apb1Code rcc))
        else none :=
  divide_hclk rcc (apb1Div_toNat rcc)

theorem getClockFrequency_pclk2 (rcc : Rcc)
    : (getClockFrequency .pclk2 rcc).map UInt32.toNat
      = if AhbListed (ahbCode rcc) ∧ ApbListed (apb2Code rcc) then
          some (hclkFrequency rcc / apbDivider (apb2Code rcc))
        else none :=
  divide_hclk rcc (apb2Div_toNat rcc)

theorem getClockFrequency_hse (rcc : Rcc) : getClockFrequency .hse rcc = some 40000 := by
  obtain ⟨quotient, divided⟩ := divide_pllFrafreval rcc
  simp only [getClockFrequency, divided]
  rfl

theorem cases_of_map_ite {condition : Prop} [Decidable condition] {value : Nat}
    {result : Option UInt32}
    (choice : result.map UInt32.toNat = if condition then some value else none)
    : (condition ∧ ∃ found, result = some found ∧ found.toNat = value)
      ∨ (¬condition ∧ result = none) := by
  by_cases holds : condition
  · rw [if_pos holds, Option.map_eq_some_iff] at choice
    exact .inl ⟨holds, choice⟩
  · rw [if_neg holds, Option.map_eq_none_iff] at choice
    exact .inr ⟨holds, choice⟩

/-- But for HSE a frequency is returned exactly when the codes on its way are listed, and it is
the one encoded.
-/
theorem getClockFrequency_cases {clock : ClockFre} (other : clock ≠ .hse) (rcc : Rcc)
    : (Decoded clock rcc
        ∧ ∃ frequency,
            getClockFrequency clock rcc = some frequency
            ∧ frequency.toNat = encodedFrequency clock rcc)
      ∨ (¬Decoded clock rcc ∧ getClockFrequency clock rcc = none) := by
  cases clock with
  | hclk =>
      have choice := cases_of_map_ite (getClockFrequency_hclk rcc)
      exact choice
  | pclk1 =>
      have choice := cases_of_map_ite (getClockFrequency_pclk1 rcc)
      exact choice
  | pclk2 =>
      have choice := cases_of_map_ite (getClockFrequency_pclk2 rcc)
      exact choice
  | hse => exact absurd rfl other
  | systemclock | hsi | lse | lsi | pll => exact .inl ⟨trivial, _, rfl, rfl⟩

/-- The frequency returned is the one encoded exactly when the codes on its way are listed, and
for HSE when it is that of LSI.
-/
theorem getClockFrequency_iff (clock : ClockFre) (rcc : Rcc)
    : (getClockFrequency clock rcc).map UInt32.toNat = some (encodedFrequency clock rcc)
      ↔ Decoded clock rcc := by
  by_cases hse : clock = .hse
  · rw [hse, getClockFrequency_hse, Option.map_some, Option.some.injEq, eq_comm]
    rfl
  · rcases getClockFrequency_cases hse rcc with ⟨decoded, found, read, value⟩ | ⟨not, read⟩
    · rw [read, Option.map_some, value]
      exact iff_of_true rfl decoded
    · rw [read]
      exact iff_of_false nofun not

/-- The code of SYSTEM_16 has no case. -/
theorem getClockFrequency_lost_system16
    : (getClockFrequency .hclk
          { cfg := 0x00B0, apb1en := 0, apb2en := 0, systemCoreClock := 240000000 }).map
        UInt32.toNat
      ≠ some
          (encodedFrequency .hclk
            { cfg := 0x00B0, apb1en := 0, apb2en := 0, systemCoreClock := 240000000 }) := by
  decide

end At32.Clock
