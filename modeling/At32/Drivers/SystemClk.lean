import At32.Lib.BitMask
import At32.Lib.LastWrite
import Mathlib.Data.List.Induction

/-! The system clock driver: the calls that select a clock source, what they leave in the
clock configuration register, and when that is what the last of them selects.
-/

namespace At32.SystemClk

open BitMask LastWrite

abbrev RCC_CTRL_HSIEN : UInt32 := 0x00000001
abbrev RCC_CTRL_HSEEN : UInt32 := 0x00010000
abbrev RCC_CTRL_PLLEN : UInt32 := 0x01000000

abbrev HSEEN_Mask : UInt32 := 0x10000
abbrev HSEBYPS_Mask : UInt32 := 0x40000
abbrev PLLEN_Mask : UInt32 := 0x2000000

abbrev HSESTBL_FLAG : UInt32 := 0x20000
abbrev PLLSTBL_FLAG : UInt32 := 0x02000000

abbrev SYSCLKSEL_HSI : UInt32 := 0x0000
abbrev SYSCLKSEL_HSE : UInt32 := 0x0001
abbrev SYSCLKSEL_PLL : UInt32 := 0x0002

abbrev SYSCLK_Mask : UInt32 := 0x0011
abbrev AHBPSC_Mask : UInt32 := 0x00F0
abbrev APB2PSC_Mask : UInt32 := 0x3800
abbrev APB1PSC_Mask : UInt32 := 0x0700

abbrev SYSCLK_1 : UInt32 := 0x0000
abbrev HCLK_1 : UInt32 := 0x0000
abbrev APB1CLK_DIV_2 : UInt32 := 0x0400
abbrev APB2CLK_DIV_2 : UInt32 := 0x2000

abbrev PLLCLK_Mask : UInt32 := 0x603C0000
abbrev PLLSRC_HSI : UInt32 := (1 : UInt32) <<< 16
abbrev PLLRANGE_GR72MHz : UInt32 := 0x80000000

/-- The multipliers PLLCLK_MUL_16MHz to PLLCLK_MUL_200MHz. -/
inductive PllClkMul
  | mhz16
  | mhz96
  | mhz104
  | mhz112
  | mhz120
  | mhz128
  | mhz136
  | mhz144
  | mhz152
  | mhz160
  | mhz168
  | mhz176
  | mhz184
  | mhz192
  | mhz200
  deriving DecidableEq, Repr

def PllClkMul.bits : PllClkMul → UInt32
  | .mhz16 => 0x00000000
  | .mhz96 => 0x002C0000
  | .mhz104 => 0x00300000
  | .mhz112 => 0x00340000
  | .mhz120 => 0x00380000
  | .mhz128 => 0x003c0000
  | .mhz136 => 0x20000000
  | .mhz144 => 0x20040000
  | .mhz152 => 0x20080000
  | .mhz160 => 0x200C0000
  | .mhz168 => 0x20100000
  | .mhz176 => 0x20140000
  | .mhz184 => 0x20180000
  | .mhz192 => 0x201C0000
  | .mhz200 => 0x20200000

/-- What the case of a multiplier stores in SystemCoreClock. -/
def PllClkMul.coreClock : PllClkMul → UInt32
  | .mhz16 => 16000000
  | .mhz96 => 96000000
  | .mhz104 => 104000000
  | .mhz112 => 112000000
  | .mhz120 => 120000000
  | .mhz128 => 128000000
  | .mhz136 => 136000000
  | .mhz144 => 144000000
  | .mhz152 => 152000000
  | .mhz160 => 160000000
  | .mhz168 => 168000000
  | .mhz176 => 176000000
  | .mhz184 => 184000000
  | .mhz192 => 192000000
  | .mhz200 => 200000000

/-- The case labels of the switch, in its order. -/
def PllClkMul.cases : List PllClkMul :=
  [mhz16, mhz96, mhz104, mhz112, mhz120, mhz128, mhz136, mhz144, mhz152, mhz160, mhz168,
    mhz176, mhz184, mhz192, mhz200]

/-- RCC->CTRL, RCC->CFG without the status bits that the hardware alone drives, and
SystemCoreClock.
-/
structure Clock where
  ctrl : UInt32
  cfg : UInt32
  systemCoreClock : UInt32
  deriving DecidableEq, Repr

/-- After reset: HSI runs, and SystemCoreClock has no initial value of its own. -/
def Clock.reset : Clock := { ctrl := RCC_CTRL_HSIEN, cfg := 0, systemCoreClock := 0 }

/-- System_Init -/
def systemInit (s : Clock) : Clock :=
  { s with
    ctrl := (s.ctrl ||| RCC_CTRL_HSIEN) &&& ~~~(HSEEN_Mask ||| HSEBYPS_Mask ||| PLLEN_Mask)
    cfg := s.cfg &&& ~~~(SYSCLK_Mask ||| AHBPSC_Mask ||| APB1PSC_Mask ||| APB2PSC_Mask) }

/-- The loop that waits for a ready flag: it ends when the hardware has set the flag. -/
def waitReady (flag : UInt32) (s : Clock) : Clock := { s with ctrl := s.ctrl ||| flag }

/-- SysClk_HSIEN -/
def sysClkHsiEn (s : Clock) : Clock :=
  let s := systemInit s
  { s with
    cfg := s.cfg ||| SYSCLKSEL_HSI ||| (SYSCLK_1 ||| HCLK_1)
    systemCoreClock := 8000000 }

/-- SysClk_HSEEN -/
def sysClkHseEn (s : Clock) : Clock :=
  let s := systemInit s
  let s := waitReady HSESTBL_FLAG { s with ctrl := s.ctrl ||| RCC_CTRL_HSEEN }
  { s with
    cfg := s.cfg ||| (SYSCLK_1 ||| HCLK_1) ||| SYSCLKSEL_HSE
    ctrl := s.ctrl &&& ~~~RCC_CTRL_HSIEN
    systemCoreClock := 8000000 }

/-- SysClk_PLLEN -/
def sysClkPllEn (pllClkMul : UInt32) (s : Clock) : Clock :=
  let s := systemInit s
  let s := waitReady HSESTBL_FLAG { s with ctrl := s.ctrl ||| RCC_CTRL_HSEEN }
  let s : Clock := { s with cfg := s.cfg ||| SYSCLK_1 ||| APB1CLK_DIV_2 ||| APB2CLK_DIV_2 }
  let s : Clock :=
    { s with
      cfg := (s.cfg &&& ~~~PLLCLK_Mask) ||| pllClkMul ||| PLLSRC_HSI ||| PLLRANGE_GR72MHz }
  let s := waitReady PLLSTBL_FLAG { s with ctrl := s.ctrl ||| RCC_CTRL_PLLEN }
  let s : Clock := { s with cfg := s.cfg ||| SYSCLKSEL_PLL }
  match PllClkMul.cases.find? (·.bits == pllClkMul) with
  | some label => { s with systemCoreClock := label.coreClock }
  | none => s

/-- A call of the driver with a multiplier that its switch handles. -/
inductive Call
  | hsiEn
  | hseEn
  | pllEn (pllClkMul : PllClkMul)
  deriving DecidableEq, Repr

def Call.apply : Call → Clock → Clock
  | .hsiEn => sysClkHsiEn
  | .hseEn => sysClkHseEn
  | .pllEn pllClkMul => sysClkPllEn pllClkMul.bits

/-- A sequence of calls from reset. -/
def run (calls : List Call) : Clock := calls.foldl (fun s call => call.apply s) .reset

theorem run_append_singleton (calls : List Call) (call : Call)
    : run (calls ++ [call]) = call.apply (run calls) := by
  rw [run, List.foldl_append]
  rfl

-----------------------------------------------------------------------------------------
-- What the fields of the register mean
-----------------------------------------------------------------------------------------

abbrev RCC_CFG_SYSCLKSEL : UInt32 := 0x00000003
abbrev RCC_CFG_AHBPSC : UInt32 := 0x000000F0
abbrev RCC_CFG_APB1PSC : UInt32 := 0x00000700
abbrev RCC_CFG_APB2PSC : UInt32 := 0x00003800
abbrev RCC_CFG_PLLRC : UInt32 := 0x00010000
abbrev RCC_CFG_PLLHSEPSC : UInt32 := 0x00020000
abbrev RCC_CFG_PLLMULT : UInt32 := 0x603C0000
abbrev RCC_CFG_PLLMULT_LB_MASK : UInt32 := 0x003C0000
abbrev RCC_CFG_PLLMULT_HB_MASK : UInt32 := 0x60000000

abbrev HSI_VALUE : Nat := 8000000
abbrev HSE_VALUE : Nat := 8000000

/-- The factor of the PLL, as the comments of RCC_CFG_PLLMULT2 to RCC_CFG_PLLMULT64 give it.
None of them has the number 15, which is that of PLLCLK_MUL_128MHz.
-/
def pllMult (cfg : UInt32) : Nat :=
  let low := (cfg &&& RCC_CFG_PLLMULT_LB_MASK) >>> 18
  let high := (cfg &&& RCC_CFG_PLLMULT_HB_MASK) >>> 29
  let number := (high <<< 4 ||| low).toNat
  if number < 15 then number + 2 else number + 1

/-- The clock that enters the PLL. -/
def pllEntry (cfg : UInt32) : Nat :=
  if cfg &&& RCC_CFG_PLLRC = 0 then HSI_VALUE / 2
  else if cfg &&& RCC_CFG_PLLHSEPSC = 0 then HSE_VALUE
  else HSE_VALUE / 2

/-- The frequency of the source selected, if the selection is one. -/
def frequency (cfg : UInt32) : Option Nat :=
  if cfg &&& RCC_CFG_SYSCLKSEL = SYSCLKSEL_HSI then some HSI_VALUE
  else if cfg &&& RCC_CFG_SYSCLKSEL = SYSCLKSEL_HSE then some HSE_VALUE
  else if cfg &&& RCC_CFG_SYSCLKSEL = SYSCLKSEL_PLL then some (pllEntry cfg * pllMult cfg)
  else none

/-- The source and the prescalers that a call selects. -/
structure Selection where
  sysclksel : UInt32
  ahbpsc : UInt32
  apb1psc : UInt32
  apb2psc : UInt32
  deriving DecidableEq, Repr

def Call.selection : Call → Selection
  | .hsiEn => { sysclksel := SYSCLKSEL_HSI, ahbpsc := HCLK_1, apb1psc := 0, apb2psc := 0 }
  | .hseEn => { sysclksel := SYSCLKSEL_HSE, ahbpsc := HCLK_1, apb1psc := 0, apb2psc := 0 }
  | .pllEn _ =>
      {
        sysclksel := SYSCLKSEL_PLL
        ahbpsc := HCLK_1
        apb1psc := APB1CLK_DIV_2
        apb2psc := APB2CLK_DIV_2
      }

/-- The selection that the register holds. -/
def selection (cfg : UInt32) : Selection :=
  {
    sysclksel := cfg &&& RCC_CFG_SYSCLKSEL
    ahbpsc := cfg &&& RCC_CFG_AHBPSC
    apb1psc := cfg &&& RCC_CFG_APB1PSC
    apb2psc := cfg &&& RCC_CFG_APB2PSC
  }

def Call.multiplier? : Call → Option PllClkMul
  | .pllEn pllClkMul => some pllClkMul
  | _ => none

/-- The registers are those that the last call selects, with the multiplier of the last call
that carries one.
-/
structure FollowsLast (calls : List Call) (s : Clock) : Prop where
  selection : ∀ call, calls.getLast? = some call → selection s.cfg = call.selection
  multiplier : ∀ m, last Call.multiplier? calls = some m → s.cfg &&& RCC_CFG_PLLMULT = m.bits
  frequency : frequency s.cfg = some s.systemCoreClock.toNat

-----------------------------------------------------------------------------------------
-- What the calls leave in the register
-----------------------------------------------------------------------------------------

/-- The bits that System_Init clears. -/
abbrev clearMask : UInt32 := SYSCLK_Mask ||| AHBPSC_Mask ||| APB1PSC_Mask ||| APB2PSC_Mask

/-- The bits that System_Init leaves, all from the last SysClk_PLLEN. The selection of the
PLL is among them: SYSCLK_Mask covers bits 0 and 4, not bit 1.
-/
def kept : Option PllClkMul → UInt32
  | none => 0
  | some m => m.bits ||| PLLSRC_HSI ||| PLLRANGE_GR72MHz ||| SYSCLKSEL_PLL

/-- The bits that a call sets and the next one clears. -/
def Call.bits : Call → UInt32
  | .hsiEn => SYSCLKSEL_HSI
  | .hseEn => SYSCLKSEL_HSE
  | .pllEn _ => APB1CLK_DIV_2 ||| APB2CLK_DIV_2

theorem kept_cleared (pll : Option PllClkMul) : kept pll &&& ~~~clearMask = kept pll := by
  cases pll with
  | none => rfl
  | some m => cases m <;> rfl

theorem Call.bits_cleared (call : Call) : call.bits &&& ~~~clearMask = 0 := by
  cases call <;>
    simp only [Call.bits] <;>
    rfl

/-- The bits kept of an earlier multiplier give way to those of a new one. -/
theorem kept_replaced (pll : Option PllClkMul) (m : PllClkMul)
    : ((kept pll ||| SYSCLK_1 ||| APB1CLK_DIV_2 ||| APB2CLK_DIV_2) &&& ~~~PLLCLK_Mask)
          ||| m.bits ||| PLLSRC_HSI ||| PLLRANGE_GR72MHz ||| SYSCLKSEL_PLL
      = kept (some m) ||| (APB1CLK_DIV_2 ||| APB2CLK_DIV_2) := by
  cases pll with
  | none => cases m <;> rfl
  | some old => cases old <;> cases m <;> rfl

/-- Every multiplier matches its own case label, by cases. -/
theorem PllClkMul.find_bits (m : PllClkMul) : cases.find? (·.bits == m.bits) = some m := by
  cases m <;> rfl

/-- A call leaves its own bits and those of the last multiplier, by cases on the call. -/
theorem Call.apply_cfg (call : Call) (s : Clock) (pll : Option PllClkMul)
    (before : s.cfg &&& ~~~clearMask = kept pll)
    : (call.apply s).cfg = kept (call.multiplier?.or pll) ||| call.bits := by
  cases call with
  | hsiEn =>
      change (s.cfg &&& ~~~clearMask) ||| SYSCLKSEL_HSI ||| (SYSCLK_1 ||| HCLK_1)
        = kept pll ||| SYSCLKSEL_HSI
      rw [before, UInt32.or_assoc]
      rfl
  | hseEn =>
      change (s.cfg &&& ~~~clearMask) ||| (SYSCLK_1 ||| HCLK_1) ||| SYSCLKSEL_HSE
        = kept pll ||| SYSCLKSEL_HSE
      rw [before, UInt32.or_assoc]
      rfl
  | pllEn m =>
      have replaced := kept_replaced pll m
      rw [← before] at replaced
      simp only [Call.apply, sysClkPllEn, m.find_bits]
      exact replaced

/-- What a call stores in SystemCoreClock. -/
def Call.coreClock : Call → UInt32
  | .hsiEn | .hseEn => 8000000
  | .pllEn m => m.coreClock

theorem Call.apply_systemCoreClock (call : Call) (s : Clock)
    : (call.apply s).systemCoreClock = call.coreClock := by
  cases call with
  | hsiEn => rfl
  | hseEn => rfl
  | pllEn m => simp only [Call.apply, sysClkPllEn, m.find_bits, Call.coreClock]

/-- After any calls System_Init leaves the bits of the last multiplier; by induction on the
calls from the last one.
-/
theorem run_kept (calls : List Call)
    : (run calls).cfg &&& ~~~clearMask = kept (last Call.multiplier? calls) := by
  induction calls using List.reverseRecOn with
  | nil => rfl
  | append_singleton calls call ih =>
      rw [run_append_singleton, call.apply_cfg (run calls) _ ih, or_and, kept_cleared,
        call.bits_cleared, UInt32.or_zero, last_append_singleton]

/-- The register after the last call. -/
theorem run_cfg (calls : List Call) (call : Call)
    : (run (calls ++ [call])).cfg
      = kept (last Call.multiplier? (calls ++ [call])) ||| call.bits := by
  rw [run_append_singleton, call.apply_cfg (run calls) _ (run_kept calls),
    last_append_singleton]

-----------------------------------------------------------------------------------------
-- When the registers follow the last call
-----------------------------------------------------------------------------------------

/-- A multiplier that stands for the factor of its name. -/
def PllClkMul.Named : PllClkMul → Prop
  | .mhz96 | .mhz104 | .mhz112 | .mhz120 => False
  | _ => True

instance : DecidablePred PllClkMul.Named
  | .mhz96 | .mhz104 | .mhz112 | .mhz120 => isFalse id
  | .mhz16 | .mhz128 | .mhz136 | .mhz144 | .mhz152 | .mhz160 | .mhz168 | .mhz176 | .mhz184
  | .mhz192 | .mhz200 => isTrue trivial

/-- A last call of SysClk_PLLEN needs a multiplier that stands for the factor of its name;
the other two need that SysClk_PLLEN has not been called.
-/
def Call.ReliableIn (calls : List Call) : Call → Prop
  | .pllEn m => m.Named
  | .hsiEn | .hseEn => ∀ m, .pllEn m ∉ calls

def Reliable (calls : List Call) : Prop :=
  ∃ call, calls.getLast? = some call ∧ call.ReliableIn calls

/-- The register of the PLL selects what the call does, by cases on the multiplier. -/
theorem selection_pllEn (m : PllClkMul)
    : selection (kept (some m) ||| (Call.pllEn m).bits) = (Call.pllEn m).selection := by
  cases m <;> rfl

theorem multiplier_kept (m : PllClkMul) (call : Call)
    : (kept (some m) ||| call.bits) &&& RCC_CFG_PLLMULT = m.bits := by
  cases call <;>
    simp only [Call.bits] <;>
    cases m <;>
    rfl

/-- The frequency of the PLL is the one stored exactly for the multipliers that stand for
the factor of their name; by cases.
-/
theorem frequency_pllEn_iff (m : PllClkMul)
    : frequency (kept (some m) ||| (Call.pllEn m).bits) = some m.coreClock.toNat ↔ m.Named := by
  cases m <;>
    simp only [Call.bits] <;>
    decide

/-- Behind a SysClk_PLLEN the bit that selects the PLL stays set. -/
theorem sysclksel_stuck (m : PllClkMul) (call : Call)
    : (selection (kept (some m) ||| call.bits)).sysclksel &&& SYSCLKSEL_PLL = SYSCLKSEL_PLL := by
  cases call <;>
    simp only [Call.bits] <;>
    cases m <;>
    rfl

/-- A call without a multiplier gets its selection exactly when no multiplier is kept. -/
theorem selection_iff (call : Call) (plain : call.multiplier? = none) (pll : Option PllClkMul)
    : selection (kept pll ||| call.bits) = call.selection ↔ pll = none := by
  cases pll with
  | none =>
      refine iff_of_true ?_ rfl
      cases call with
      | hsiEn => rfl
      | hseEn => rfl
      | pllEn m => cases plain
  | some m =>
      refine iff_of_false ?_ (Option.some_ne_none m)
      intro same
      have stuck := sysclksel_stuck m call
      rw [same] at stuck
      cases call with
      | hsiEn => exact absurd stuck (by decide)
      | hseEn => exact absurd stuck (by decide)
      | pllEn m => cases plain

/-- With no multiplier kept, HSI and HSE run at the frequency stored for them. -/
theorem frequency_plain (call : Call) (plain : call.multiplier? = none)
    : frequency (kept none ||| call.bits) = some call.coreClock.toNat := by
  cases call with
  | hsiEn => rfl
  | hseEn => rfl
  | pllEn m => cases plain

/-- The registers after a last call, in terms of what it leaves. -/
theorem followsLast_append_iff (calls : List Call) (call : Call) {pll : Option PllClkMul}
    (left : last Call.multiplier? (calls ++ [call]) = pll)
    : FollowsLast (calls ++ [call]) (run (calls ++ [call]))
      ↔ selection (kept pll ||| call.bits) = call.selection
        ∧ frequency (kept pll ||| call.bits) = some call.coreClock.toNat := by
  have cfg := run_cfg calls call
  rw [left] at cfg
  have clock : (run (calls ++ [call])).systemCoreClock = call.coreClock := by
    rw [run_append_singleton, call.apply_systemCoreClock]
  have final : (calls ++ [call]).getLast? = some call := List.getLast?_concat
  constructor
  · intro follows
    have selected := follows.selection call final
    have running := follows.frequency
    rw [cfg] at selected running
    rw [clock] at running
    exact ⟨selected, running⟩
  · intro both
    obtain ⟨selected, running⟩ := both
    refine { selection := ?_, multiplier := ?_, frequency := ?_ }
    · intro other same
      obtain rfl := Option.some.inj (final.symm.trans same)
      rwa [cfg]
    · intro m carried
      rw [cfg, ← left, carried]
      exact multiplier_kept m call
    · rwa [cfg, clock]

/-- No multiplier is left exactly when SysClk_PLLEN has not been called. -/
theorem last_multiplier_none_iff (calls : List Call)
    : last Call.multiplier? calls = none ↔ ∀ m, .pllEn m ∉ calls := by
  rw [last_eq_none_iff]
  constructor
  · intro plain m member
    exact absurd (plain _ member) (Option.some_ne_none m)
  · intro never call member
    cases call with
    | hsiEn => rfl
    | hseEn => rfl
    | pllEn m => exact absurd member (never m)

/-- After any calls, the source and the prescalers are those that the last call selects, the
multiplier is that of the last SysClk_PLLEN and SystemCoreClock is the frequency of the
source selected, exactly if the calls are reliable.
-/
theorem run_followsLast_iff (calls : List Call)
    : FollowsLast calls (run calls) ↔ Reliable calls := by
  rcases List.eq_nil_or_concat calls with rfl | ⟨front, call, rfl⟩
  · constructor
    · intro follows
      exact absurd follows.frequency (by decide)
    · intro reliable
      obtain ⟨call, final, _⟩ := reliable
      cases final
  · rw [List.concat_eq_append]
    have final : (front ++ [call]).getLast? = some call := List.getLast?_concat
    have here : Reliable (front ++ [call]) ↔ call.ReliableIn (front ++ [call]) := by
      simp [Reliable, final]
    have source (plain : call.multiplier? = none)
        : FollowsLast (front ++ [call]) (run (front ++ [call]))
          ↔ ∀ m, .pllEn m ∉ front ++ [call] := by
      rw [followsLast_append_iff front call rfl, selection_iff call plain,
        ← last_multiplier_none_iff]
      refine and_iff_left_of_imp fun never => ?_
      rw [never]
      exact frequency_plain call plain
    rw [here]
    cases call with
    | hsiEn => exact source rfl
    | hseEn => exact source rfl
    | pllEn m =>
        have carried : last Call.multiplier? (front ++ [.pllEn m]) = some m := by
          rw [last_append_singleton]
          rfl
        rw [followsLast_append_iff front _ carried]
        exact (and_iff_right (selection_pllEn m)).trans (frequency_pllEn_iff m)

/-- From the PLL back to HSI: the PLL stays selected, bit 1 of CFG being left set. -/
theorem run_not_followsLast_pll_hsi
    : ¬ FollowsLast [.pllEn .mhz192, .hsiEn] (run [.pllEn .mhz192, .hsiEn]) := by
  intro follows
  exact absurd (follows.selection .hsiEn rfl) (by decide)

end At32.SystemClk
