import At32.Lib.BitField
import At32.Lib.LastWrite
import Mathlib.Data.List.Induction

/-! Interrupt priorities: the bytes that NVIC_Init assembles, and when their order is that of
the priorities that were configured.
-/

namespace At32.Nvic

open BitField LastWrite

abbrev AIRCR_MASK : UInt32 := 0x700
abbrev NVIC_IRQCHAN_MASK : UInt8 := 0x1F

/-- NVIC_PriorityGroup_0 to NVIC_PriorityGroup_4 -/
def priorityGroup : Fin 5 → UInt32
  | 0 => 0x700
  | 1 => 0x600
  | 2 => 0x500
  | 3 => 0x400
  | 4 => 0x300

/-- The priority bits of AIRCR, the bytes of IP, and the enabled channels, 32 to a word. IP has
240 bytes; no channel has a higher number.
-/
structure Registers where
  aircr : UInt32
  ip : UInt8 → UInt8
  enabled : Nat → BitVec 32

/-- The key is not part of what AIRCR holds. -/
def nvicPriorityGroupConfig (nvicPriorityGroup : UInt32) (s : Registers) : Registers :=
  { s with aircr := nvicPriorityGroup &&& AIRCR_MASK }

/-- The byte that NVIC_Init assembles. Its temporary is the number of preemption bits before
it is the priority, and is not cleared between.
-/
def priorityByte (aircr : UInt32) (preemptionPriority subPriority : UInt8) : UInt8 :=
  let submask : UInt32 := 0x0f
  let tempriority := (AIRCR_MASK - (aircr &&& AIRCR_MASK)) >>> 0x08
  let premov := 0x4 - tempriority
  let submask := submask >>> tempriority
  let tempriority := tempriority ||| preemptionPriority.toUInt32 <<< premov
  let tempriority := tempriority ||| subPriority.toUInt32 &&& submask
  let tempriority := tempriority <<< 0x04
  tempriority.toUInt8

/-- The word and the bit of a channel in ISER and ICER. -/
def channelWord (channel : UInt8) : Nat := (channel >>> 0x05).toNat

def channelBit (channel : UInt8) : Nat := (channel &&& NVIC_IRQCHAN_MASK).toNat

/-- NVIC_Init. A write to ISER sets the bits that are one in it, one to ICER clears them. -/
def nvicInit (channel preemptionPriority subPriority : UInt8) (newState : Bool) (s : Registers)
    : Registers :=
  let word := s.enabled (channelWord channel)
  if newState then
    { s with
      ip :=
        Function.update s.ip channel (priorityByte s.aircr preemptionPriority subPriority)
      enabled :=
        Function.update s.enabled (channelWord channel) (word ||| 1#32 <<< channelBit channel) }
  else
    { s with
      enabled :=
        Function.update s.enabled (channelWord channel)
          (word &&& ~~~(1#32 <<< channelBit channel)) }

def Registers.isEnabled (s : Registers) (channel : UInt8) : Bool :=
  (s.enabled (channelWord channel)).getLsbD (channelBit channel)

/-- A call of NVIC_Init. -/
structure Call where
  channel : UInt8
  preemptionPriority : UInt8
  subPriority : UInt8
  newState : Bool
  deriving DecidableEq, Repr

def Call.apply (call : Call) (s : Registers) : Registers :=
  nvicInit call.channel call.preemptionPriority call.subPriority call.newState s

/-- A sequence of calls in a priority group. -/
def run (group : Fin 5) (s : Registers) (calls : List Call) : Registers :=
  calls.foldl (fun s call => call.apply s) (nvicPriorityGroupConfig (priorityGroup group) s)

theorem run_append_singleton (group : Fin 5) (s : Registers) (calls : List Call) (call : Call)
    : run group s (calls ++ [call]) = call.apply (run group s calls) := by
  rw [run, List.foldl_append]
  rfl

-----------------------------------------------------------------------------------------
-- What is configured
-----------------------------------------------------------------------------------------

/-- A preemption priority and a sub priority. -/
structure Pair where
  preemption : Nat
  sub : Nat
  deriving DecidableEq, Repr

/-- The lexicographic order. -/
def Pair.Before (p q : Pair) : Prop :=
  p.preemption < q.preemption ∨ (p.preemption = q.preemption ∧ p.sub < q.sub)

/-- The preemption priority fits in the bits of the group and the sub priority in the others. -/
def Pair.Fits (group : Fin 5) (p : Pair) : Prop :=
  p.preemption < 2 ^ group.val ∧ p.sub < 2 ^ (4 - group.val)

/-- Both priorities in four bits. -/
def Pair.value (group : Fin 5) (p : Pair) : Nat := p.preemption * 2 ^ (4 - group.val) + p.sub

def Call.pair (call : Call) : Pair :=
  { preemption := call.preemptionPriority.toNat, sub := call.subPriority.toNat }

/-- The pair that a call configures for a channel. -/
def Call.configures (channel : UInt8) (call : Call) : Option Pair :=
  if call.channel = channel ∧ call.newState then some call.pair else none

/-- Whether a call enables a channel. -/
def Call.enables (channel : UInt8) (call : Call) : Option Bool :=
  if call.channel = channel then some call.newState else none

/-- The pair configured last. -/
def configured (channel : UInt8) (calls : List Call) : Option Pair :=
  last (Call.configures channel) calls

/-- A channel is enabled by the last call for it. -/
def enabledBy (s : Registers) (channel : UInt8) (calls : List Call) : Bool :=
  (last (Call.enables channel) calls).getD (s.isEnabled channel)

/-- The bytes of enabled channels are in the order of their pairs, and equal only for equal
ones.
-/
def Ordered (s : Registers) (calls : List Call) : Prop :=
  ∀ channel other p q,
    s.isEnabled channel
    → s.isEnabled other
    → configured channel calls = some p
    → configured other calls = some q
    → (s.ip channel < s.ip other ↔ p.Before q) ∧ (s.ip channel = s.ip other → p = q)

/-- The order of the pairs shows in the bits that the number of the group leaves clear. -/
def Distinguished (group : Fin 5) (s : Registers) (calls : List Call) : Prop :=
  ∀ channel other p q,
    enabledBy s channel calls
    → enabledBy s other calls
    → configured channel calls = some p
    → configured other calls = some q
    → p.Before q
    → p.value group &&& (15 - group.val) < q.value group &&& (15 - group.val)

-----------------------------------------------------------------------------------------
-- The byte
-----------------------------------------------------------------------------------------

theorem priorityByte_toNat (group : Fin 5) {p : Pair} (fits : p.Fits group)
    : (priorityByte (priorityGroup group &&& AIRCR_MASK) (UInt8.ofNat p.preemption)
        (UInt8.ofNat p.sub)).toNat
      = 16 * ((p.value group &&& (15 - group.val)) + group.val) := by
  have cases : ∀ group : Fin 5, ∀ preemption sub : Fin 16,
      preemption.val < 2 ^ group.val
      → sub.val < 2 ^ (4 - group.val)
      → (priorityByte (priorityGroup group &&& AIRCR_MASK) (UInt8.ofNat preemption.val)
          (UInt8.ofNat sub.val)).toNat
        = 16 * ((preemption.val * 2 ^ (4 - group.val) + sub.val &&& (15 - group.val))
            + group.val) := by
    decide +kernel
  have four : ∀ group : Fin 5, 2 ^ group.val ≤ 16 ∧ 2 ^ (4 - group.val) ≤ 16 := by decide
  have := four group
  obtain ⟨low, lowSub⟩ := fits
  exact cases group ⟨p.preemption, by omega⟩ ⟨p.sub, by omega⟩ low lowSub

/-- The order of the values is that of the pairs. -/
theorem value_lt_iff {group : Fin 5} {p q : Pair} (fits : p.Fits group) (other : q.Fits group)
    : p.value group < q.value group ↔ p.Before q := by
  unfold Pair.value Pair.Before
  have low := fits.2
  have otherLow := other.2
  generalize 2 ^ (4 - group.val) = width at *
  rcases Nat.lt_trichotomy p.preemption q.preemption with below | same | above
  · refine iff_of_true ?_ (.inl below)
    have step := Nat.mul_le_mul_right width below
    rw [Nat.succ_mul] at step
    omega
  · rw [same]
    omega
  · refine iff_of_false (fun less => ?_) (by omega)
    have step := Nat.mul_le_mul_right width above
    rw [Nat.succ_mul] at step
    omega

-----------------------------------------------------------------------------------------
-- Runs
-----------------------------------------------------------------------------------------

theorem channel_ext {channel other : UInt8} (word : channelWord channel = channelWord other)
    (bit : channelBit channel = channelBit other)
    : channel = other := by
  unfold channelWord at word
  unfold channelBit at bit
  rw [UInt8.toNat_shiftRight, UInt8.toNat_shiftRight, Nat.shiftRight_eq_div_pow,
    Nat.shiftRight_eq_div_pow] at word
  rw [UInt8.toNat_and, UInt8.toNat_and] at bit
  change channel.toNat / 2 ^ 5 = other.toNat / 2 ^ 5 at word
  change channel.toNat &&& (2 ^ 5 - 1) = other.toNat &&& (2 ^ 5 - 1) at bit
  rw [Nat.and_two_pow_sub_one_eq_mod, Nat.and_two_pow_sub_one_eq_mod] at bit
  rw [← UInt8.toNat_inj]
  omega

theorem channelBit_lt (channel : UInt8) : channelBit channel < 32 :=
  Nat.lt_succ_of_le Nat.and_le_right

theorem Call.apply_enabled (call : Call) (s : Registers)
    : (call.apply s).enabled
      = Function.update s.enabled (channelWord call.channel)
          (if call.newState then
            s.enabled (channelWord call.channel) ||| 1#32 <<< channelBit call.channel
          else
            s.enabled (channelWord call.channel) &&& ~~~(1#32 <<< channelBit call.channel)) := by
  unfold Call.apply nvicInit
  simp only
  split <;> rfl

/-- A call enables or disables its own channel only. -/
theorem Call.apply_isEnabled (call : Call) (s : Registers) (channel : UInt8)
    : (call.apply s).isEnabled channel = (call.enables channel).getD (s.isEnabled channel) := by
  have place := channelBit_lt call.channel
  unfold Registers.isEnabled Call.enables
  rw [call.apply_enabled]
  by_cases same : call.channel = channel
  · subst same
    rw [Function.update_self, if_pos rfl, Option.getD_some]
    cases call.newState
    · exact (getLsbD_clear _ place _).trans (if_pos rfl)
    · exact (getLsbD_set _ place _).trans (if_pos rfl)
  · rw [if_neg same, Option.getD_none]
    by_cases word : channelWord channel = channelWord call.channel
    · have bit : channelBit channel ≠ channelBit call.channel := fun bit =>
        same (channel_ext word bit).symm
      rw [word, Function.update_self]
      cases call.newState
      · exact (getLsbD_clear _ place _).trans (if_neg bit)
      · exact (getLsbD_set _ place _).trans (if_neg bit)
    · rw [Function.update_of_ne word]

/-- A call that enables a channel configures its byte, and no other one. -/
theorem Call.apply_ip (call : Call) (s : Registers) (channel : UInt8)
    : (call.apply s).ip channel
      = ((call.configures channel).map fun p =>
            priorityByte s.aircr (UInt8.ofNat p.preemption) (UInt8.ofNat p.sub)).getD
          (s.ip channel) := by
  unfold Call.apply nvicInit Call.configures
  cases call.newState with
  | false =>
      rw [if_neg Bool.false_ne_true, if_neg fun both => Bool.false_ne_true both.2]
      rfl
  | true =>
      rw [if_pos rfl]
      by_cases same : call.channel = channel
      · subst same
        rw [if_pos ⟨rfl, rfl⟩, Option.map_some, Option.getD_some]
        simp only [Call.pair, UInt8.ofNat_toNat, Function.update_self]
      · rw [if_neg fun both => same both.1]
        exact Function.update_of_ne (Ne.symm same) _ _

theorem Call.apply_aircr (call : Call) (s : Registers) : (call.apply s).aircr = s.aircr := by
  unfold Call.apply nvicInit
  simp only
  split <;> rfl

variable (group : Fin 5) (s : Registers)

theorem run_aircr (calls : List Call)
    : (run group s calls).aircr = priorityGroup group &&& AIRCR_MASK := by
  induction calls using List.reverseRecOn with
  | nil => rfl
  | append_singleton calls call ih => rw [run_append_singleton, call.apply_aircr, ih]

/-- After any calls a channel is enabled as the last one for it says; by induction on the calls
from the last one.
-/
theorem run_isEnabled (calls : List Call) (channel : UInt8)
    : (run group s calls).isEnabled channel = enabledBy s channel calls := by
  unfold enabledBy
  induction calls using List.reverseRecOn with
  | nil => rfl
  | append_singleton calls call ih =>
      rw [run_append_singleton, call.apply_isEnabled, ih, last_append_singleton, Option.getD_or]

/-- The byte of a channel is that of the pair configured last. -/
theorem run_ip {calls : List Call} {channel : UInt8} {p : Pair}
    (found : configured channel calls = some p)
    : (run group s calls).ip channel
      = priorityByte (priorityGroup group &&& AIRCR_MASK) (UInt8.ofNat p.preemption)
          (UInt8.ofNat p.sub) := by
  unfold configured at found
  induction calls using List.reverseRecOn with
  | nil => cases found
  | append_singleton calls call ih =>
      rw [last_append_singleton] at found
      rw [run_append_singleton, call.apply_ip, run_aircr]
      cases here : call.configures channel with
      | some q =>
          rw [here] at found
          obtain rfl : q = p := Option.some.inj found
          rfl
      | none =>
          rw [here] at found
          exact ih found

/-- A configured pair is that of a call. -/
theorem configured_fits {calls : List Call} (fit : ∀ call ∈ calls, call.pair.Fits group)
    {channel : UInt8} {p : Pair} (found : configured channel calls = some p)
    : p.Fits group := by
  obtain ⟨call, carried, value⟩ := Option.bind_eq_some_iff.mp found
  unfold Call.configures at value
  split at value
  · obtain rfl := Option.some.inj value
    exact fit call (mem_of_carrier carried)
  · cases value

/-- Bytes are in the order of the bits of their values that the group leaves clear. -/
theorem byte_lt_iff {p q : Pair} (fits : p.Fits group) (other : q.Fits group)
    : priorityByte (priorityGroup group &&& AIRCR_MASK) (UInt8.ofNat p.preemption)
          (UInt8.ofNat p.sub)
        < priorityByte (priorityGroup group &&& AIRCR_MASK) (UInt8.ofNat q.preemption)
            (UInt8.ofNat q.sub)
      ↔ p.value group &&& (15 - group.val) < q.value group &&& (15 - group.val) := by
  rw [UInt8.lt_iff_toNat_lt, priorityByte_toNat group fits, priorityByte_toNat group other]
  omega

theorem Pair.not_before_self (p : Pair) : ¬p.Before p := by
  unfold Pair.Before
  omega

theorem Pair.Before.asymm {p q : Pair} (before : p.Before q) : ¬q.Before p := by
  unfold Pair.Before at *
  omega

theorem Pair.before_or (p q : Pair) : p.Before q ∨ p = q ∨ q.Before p := by
  obtain ⟨preemption, sub⟩ := p
  obtain ⟨otherPreemption, otherSub⟩ := q
  rw [Pair.mk.injEq]
  unfold Pair.Before
  simp only
  omega

/-- The bytes show the order of the pairs exactly where the bits that are left clear do. -/
theorem ordered_iff_distinguished (calls : List Call) (fit : ∀ call ∈ calls, call.pair.Fits group)
    : Ordered (run group s calls) calls ↔ Distinguished group s calls := by
  constructor
  · intro ordered channel other p q on otherOn found otherFound before
    have fits := configured_fits group fit found
    have otherFits := configured_fits group fit otherFound
    rw [← run_isEnabled group s] at on otherOn
    have less := (ordered channel other p q on otherOn found otherFound).1.mpr before
    rw [run_ip group s found, run_ip group s otherFound] at less
    exact (byte_lt_iff group fits otherFits).mp less
  · intro distinguished channel other p q on otherOn found otherFound
    have fits := configured_fits group fit found
    have otherFits := configured_fits group fit otherFound
    rw [run_isEnabled group s] at on otherOn
    have forward := distinguished channel other p q on otherOn found otherFound
    have backward := distinguished other channel q p otherOn on otherFound found
    rw [← byte_lt_iff group fits otherFits] at forward
    rw [← byte_lt_iff group otherFits fits] at backward
    rw [run_ip group s found, run_ip group s otherFound]
    rcases p.before_or q with before | rfl | after
    · have less := forward before
      exact ⟨iff_of_true less before, fun same => absurd same (UInt8.ne_of_lt less)⟩
    · exact ⟨iff_of_false (UInt8.lt_irrefl _) p.not_before_self, fun _ => rfl⟩
    · have greater := backward after
      exact ⟨iff_of_false (UInt8.lt_asymm greater) (after.asymm),
        fun same => absurd same.symm (UInt8.ne_of_lt greater)⟩

/-- Group 0 leaves all bits clear. -/
theorem distinguished_group0 (calls : List Call)
    (fit : ∀ call ∈ calls, call.pair.Fits 0)
    : Distinguished 0 s calls := by
  intro channel other p q _ _ found otherFound before
  have fits := configured_fits 0 fit found
  have otherFits := configured_fits 0 fit otherFound
  have less := (value_lt_iff fits otherFits).mpr before
  have small : ∀ {r : Pair}, r.Fits 0 → r.value 0 &&& (15 - (0 : Fin 5).val) = r.value 0 :=
    fun {r} fits => by
      obtain ⟨low, lowSub⟩ := fits
      change r.preemption < 1 at low
      change r.sub < 16 at lowSub
      change r.preemption * 16 + r.sub &&& (2 ^ 4 - 1) = _
      rw [Nat.and_two_pow_sub_one_eq_mod, Nat.mod_eq_of_lt (by omega)]
      rfl
  rwa [small fits, small otherFits]

/-- The bytes of the enabled channels are in the order of the pairs configured last exactly when
that order shows in the bits that the number of the group leaves clear, as it always does in
group 0.
-/
theorem nvicInit_ordered_iff (calls : List Call) (fit : ∀ call ∈ calls, call.pair.Fits group)
    : (Ordered (run group s calls) calls ↔ Distinguished group s calls)
      ∧ (group = 0 → Ordered (run group s calls) calls) := by
  refine ⟨ordered_iff_distinguished group s calls fit, ?_⟩
  rintro rfl
  exact (ordered_iff_distinguished 0 s calls fit).mpr (distinguished_group0 s calls fit)

/-- A controller as after a reset. -/
def resetRegisters : Registers := { aircr := 0, ip := fun _ => 0, enabled := fun _ => 0 }

/-- Two channels in group 2, as the projects configure them. -/
def twoChannels : List Call :=
  [
    { channel := 37, preemptionPriority := 2, subPriority := 1, newState := true },
    { channel := 23, preemptionPriority := 3, subPriority := 2, newState := true }
  ]

theorem nvicInit_ordered_twoChannels
    : (Ordered (run 2 resetRegisters twoChannels) twoChannels
        ↔ Distinguished 2 resetRegisters twoChannels)
      ∧ ((2 : Fin 5) = 0 → Ordered (run 2 resetRegisters twoChannels) twoChannels) :=
  nvicInit_ordered_iff 2 resetRegisters twoChannels (by unfold Pair.Fits; decide)

/-- Two channels whose sub priorities differ in a bit that group 2 sets. -/
def twoSubs : List Call :=
  [
    { channel := 37, preemptionPriority := 1, subPriority := 0, newState := true },
    { channel := 23, preemptionPriority := 1, subPriority := 2, newState := true }
  ]

/-- Their bytes are equal. -/
theorem nvicInit_equal_twoSubs
    : (∀ call ∈ twoSubs, call.pair.Fits 2)
      ∧ ¬Ordered (run 2 resetRegisters twoSubs) twoSubs := by
  refine ⟨by unfold Pair.Fits; decide, fun ordered => ?_⟩
  have both := ordered 37 23 { preemption := 1, sub := 0 } { preemption := 1, sub := 2 }
    (by decide) (by decide) (by decide) (by decide)
  exact absurd (both.2 (by decide)) (by decide)

end At32.Nvic
