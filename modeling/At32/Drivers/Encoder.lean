import At32.Lib.BitField
import At32.Lib.Quadrature

/-! The simulated encoder: the levels that the timer interrupt puts out, and what a quadrature
decoder makes of them.
-/

namespace At32.Encoder

open BitField

/-- The variable count and the registers that the interrupt writes. -/
structure Board where
  count : UInt32
  odr : BitVec 32
  sts : BitVec 32
  ar : BitVec 32
  deriving DecidableEq, Repr

/-- PBout -/
def Board.pbOut (s : Board) (n : Nat) (value : Bool) : Board :=
  { s with odr := if value then s.odr ||| 1#32 <<< n else s.odr &&& ~~~(1#32 <<< n) }

/-- TMR2_GLOBAL_IRQHandler, for the value of refer_value; none where it divides by zero. Of the
float that holds refer_value it uses the sign only.
-/
def tmr2GlobalIrqHandler (referValue : Int) (s : Board) : Option Board :=
  let tempReferValue := referValue
  let s := { s with sts := 0 }
  if referValue = 0 then
    none
  else
    let ar :=
      if tempReferValue > 0 then Int.tdiv 45000 referValue else Int.tdiv 45000 referValue * -1
    let s := { s with ar := BitVec.ofInt 32 ar }
    if tempReferValue ≠ 0 then
      let s := { s with count := s.count + 1 }
      if s.count % 16 = 0 then
        if tempReferValue > 0 then some ((s.pbOut 8 false).pbOut 9 true)
        else if tempReferValue < 0 then some ((s.pbOut 8 true).pbOut 9 false)
        else some s
      else if s.count % 16 ≤ 7 ∧ s.count % 16 ≥ 4 then
        some ((s.pbOut 8 true).pbOut 9 true)
      else if s.count % 16 = 8 then
        if tempReferValue > 0 then some ((s.pbOut 8 true).pbOut 9 false)
        else if tempReferValue < 0 then some ((s.pbOut 8 false).pbOut 9 true)
        else some s
      else if s.count % 16 ≤ 15 ∧ s.count % 16 ≥ 12 then
        some ((s.pbOut 8 false).pbOut 9 false)
      else
        some s
    else
      some s

/-- The levels of PB8 and PB9. -/
def Board.levels (s : Board) : Bool × Bool := (s.odr.getLsbD 8, s.odr.getLsbD 9)

/-- Calls of the interrupt, each with the value of refer_value then, and the levels behind each.
-/
def run : List Int → Board → Option (Board × List (Bool × Bool))
  | [], s => some (s, [])
  | referValue :: rest, s => do
      let next ← tmr2GlobalIrqHandler referValue s
      let (last, levels) ← run rest next
      return (last, next.levels :: levels)

-----------------------------------------------------------------------------------------
-- The cycle
-----------------------------------------------------------------------------------------

/-- The levels at a place of the cycle, for a positive or a negative value and the levels
before.
-/
def cycleLevels (positive : Bool) (place : Fin 16) (levels : Bool × Bool) : Bool × Bool :=
  if place = 0 then (!positive, positive)
  else if place ≤ 7 ∧ place ≥ 4 then (true, true)
  else if place = 8 then (positive, !positive)
  else if place ≤ 15 ∧ place ≥ 12 then (false, false)
  else levels

/-- The place of a count in the cycle. -/
def Board.place (s : Board) : Fin 16 := ⟨s.count.toNat % 16, Nat.mod_lt _ (by decide)⟩

/-- The levels behind some calls of one sign. -/
def cycleRun (positive : Bool) : Nat → Fin 16 → Bool × Bool → List (Bool × Bool)
  | 0, _, _ => []
  | calls + 1, place, levels =>
      let next := cycleLevels positive (place + 1) levels
      next :: cycleRun positive calls (place + 1) next

/-- Levels as they are at a place once the cycle has come to place 4. -/
def Settled (place : Fin 16) (levels : Bool × Bool) : Prop :=
  (4 ≤ place ∧ place ≤ 7 → levels = (true, true))
  ∧ (12 ≤ place → levels = (false, false))
  ∧ (place < 4 ∨ 8 ≤ place ∧ place < 12 → levels.1 ≠ levels.2)

instance (place : Fin 16) (levels : Bool × Bool) : Decidable (Settled place levels) :=
  inferInstanceAs (Decidable (_ ∧ _ ∧ _))

theorem cycleLevels_settled (positive : Bool) (place : Fin 16) (levels : Bool × Bool)
    (settled : Settled place levels)
    : Settled (place + 1) (cycleLevels positive (place + 1) levels) := by
  revert positive place levels
  decide

theorem cycleLevels_four (positive : Bool) (levels : Bool × Bool)
    : Settled (3 + 1) (cycleLevels positive (3 + 1) levels) := by
  revert positive levels
  decide

theorem cycleLevels_oneLevel (positive : Bool) (place : Fin 16) (levels : Bool × Bool)
    (settled : Settled place levels)
    : levels.1 = (cycleLevels positive (place + 1) levels).1
      ∨ levels.2 = (cycleLevels positive (place + 1) levels).2 := by
  revert positive place levels
  decide

/-- A whole cycle of one sign is four steps, once the levels are equal. -/
theorem cycleRun_decode (positive : Bool) (place : Fin 16) (levels : Bool × Bool)
    (settled : Settled place levels) (equal : levels.1 = levels.2)
    : Quadrature.decode levels (cycleRun positive 16 place levels)
      = some (if positive then 4 else -4) := by
  revert positive place levels
  decide +kernel

-----------------------------------------------------------------------------------------
-- Calls
-----------------------------------------------------------------------------------------

theorem Board.pbOut_getLsbD (s : Board) {n : Nat} (inside : n < 32) (value : Bool) (i : Nat)
    : (s.pbOut n value).odr.getLsbD i = if i = n then value else s.odr.getLsbD i := by
  cases value with
  | true => exact getLsbD_set s.odr inside i
  | false => exact getLsbD_clear s.odr inside i

/-- Both levels are those put out. -/
theorem Board.levels_pbOut (s : Board) (first second : Bool)
    : ((s.pbOut 8 first).pbOut 9 second).levels = (first, second) := by
  have inside : 8 < 32 ∧ 9 < 32 := by decide
  rw [Board.levels, pbOut_getLsbD _ inside.2, pbOut_getLsbD _ inside.2,
    pbOut_getLsbD _ inside.1]
  rfl

/-- The place in the cycle is the lowest four bits of the count, which a wrap does not disturb. -/
theorem Board.place_next {s t : Board} (counted : t.count = s.count + 1)
    : t.place = s.place + 1 := by
  have width := s.count.toNat_lt
  apply Fin.ext
  simp only [Board.place, counted, UInt32.toNat_add, Fin.val_add]
  change (s.count.toNat + 1) % 4294967296 % 16 = (s.count.toNat % 16 + 1) % 16
  omega

theorem count_cases (s : Board)
    : (s.count % 16 = 0 ↔ s.place = 0)
      ∧ (s.count % 16 ≤ 7 ∧ s.count % 16 ≥ 4 ↔ s.place ≤ 7 ∧ s.place ≥ 4)
      ∧ (s.count % 16 = 8 ↔ s.place = 8)
      ∧ (s.count % 16 ≤ 15 ∧ s.count % 16 ≥ 12 ↔ s.place ≤ 15 ∧ s.place ≥ 12) := by
  simp only [← UInt32.toNat_inj, ge_iff_le, UInt32.le_iff_toNat_le, UInt32.toNat_mod,
    ← Fin.val_inj, Fin.le_def]
  exact ⟨Iff.rfl, Iff.rfl, Iff.rfl, Iff.rfl⟩

/-- A call with a value other than zero counts and puts out the levels of the next place. -/
theorem tmr2GlobalIrqHandler_eq {referValue : Int} (nonzero : referValue ≠ 0) (s : Board)
    : ∃ t,
        tmr2GlobalIrqHandler referValue s = some t
        ∧ t.place = s.place + 1
        ∧ t.levels = cycleLevels (decide (0 < referValue)) (s.place + 1) s.levels := by
  simp only [tmr2GlobalIrqHandler, if_neg nonzero, if_pos nonzero]
  generalize BitVec.ofInt 32 _ = ar
  generalize counted : (Board.mk (s.count + 1) s.odr 0 ar) = ticked
  have count : ticked.count = s.count + 1 := by rw [← counted]
  have levels : ticked.levels = s.levels := by rw [← counted]; rfl
  obtain ⟨wrap, high, middle, low⟩ := count_cases ticked
  have place := Board.place_next count
  simp only [← count, wrap, high, middle, low, ← place, ← levels, cycleLevels]
  have put (first second : Bool)
      : ∃ t,
          some ((ticked.pbOut 8 first).pbOut 9 second) = some t
          ∧ t.place = ticked.place
          ∧ t.levels = (first, second) :=
    ⟨_, rfl, rfl, ticked.levels_pbOut first second⟩
  have sign
      : (¬referValue > 0 ∧ referValue < 0 ∧ decide (0 < referValue) = false)
        ∨ (referValue > 0 ∧ decide (0 < referValue) = true) := by
    rcases Int.lt_or_gt_of_ne nonzero with negative | positive
    · have notPositive : ¬referValue > 0 := by omega
      exact .inl ⟨notPositive, negative, decide_eq_false notPositive⟩
    · exact .inr ⟨positive, decide_eq_true positive⟩
  by_cases atWrap : ticked.place = 0
  · simp only [if_pos atWrap]
    rcases sign with ⟨notPositive, negative, sign⟩ | ⟨positive, sign⟩
    · simpa only [if_neg notPositive, if_pos negative, sign, Bool.not_false] using put true false
    · simpa only [if_pos positive, sign, Bool.not_true] using put false true
  simp only [if_neg atWrap]
  by_cases isHigh : ticked.place ≤ 7 ∧ ticked.place ≥ 4
  · simpa only [if_pos isHigh] using put true true
  simp only [if_neg isHigh]
  by_cases atMiddle : ticked.place = 8
  · simp only [if_pos atMiddle]
    rcases sign with ⟨notPositive, negative, sign⟩ | ⟨positive, sign⟩
    · simpa only [if_neg notPositive, if_pos negative, sign, Bool.not_false] using put false true
    · simpa only [if_pos positive, sign, Bool.not_true] using put true false
  simp only [if_neg atMiddle]
  by_cases isLow : ticked.place ≤ 15 ∧ ticked.place ≥ 12
  · simpa only [if_pos isLow] using put false false
  · simpa only [if_neg isLow] using ⟨ticked, rfl, rfl, rfl⟩

/-- A board behind a number of calls: they are counted, and the fourth one settles the levels. -/
structure Behind (calls : Nat) (s : Board) : Prop where
  place : s.place.val = calls % 16
  settled : 4 ≤ calls → Settled s.place s.levels

theorem Behind.step {calls : Nat} {s : Board} (behind : Behind calls s) {referValue : Int}
    (nonzero : referValue ≠ 0)
    : ∃ t, tmr2GlobalIrqHandler referValue s = some t ∧ Behind (calls + 1) t := by
  obtain ⟨t, called, place, levels⟩ := tmr2GlobalIrqHandler_eq nonzero s
  refine ⟨t, called, ?_, fun fourth => ?_⟩
  · rw [place, Fin.val_add, behind.place]
    exact Nat.mod_add_mod _ _ _
  · rw [place, levels]
    rcases Nat.lt_or_eq_of_le fourth with later | here
    · exact cycleLevels_settled _ _ _ (behind.settled (Nat.le_of_lt_succ later))
    · have atThree : s.place = 3 := by
        apply Fin.ext
        rw [behind.place, ← Nat.succ.inj here]
        rfl
      rw [atThree]
      exact cycleLevels_four _ _

/-- Calls with values other than zero return; by induction on the calls. -/
theorem run_behind {calls : Nat} {s : Board} (behind : Behind calls s)
    {referValues : List Int}
    (nonzero : ∀ referValue ∈ referValues, referValue ≠ 0)
    : ∃ t levels,
        run referValues s = some (t, levels) ∧ Behind (calls + referValues.length) t := by
  induction referValues generalizing calls s with
  | nil => exact ⟨s, [], rfl, behind⟩
  | cons referValue rest ih =>
      obtain ⟨next, called, counted⟩ := behind.step (nonzero _ (.head _))
      obtain ⟨last, levels, ran, reached⟩ :=
        ih counted fun other later => nonzero other (.tail _ later)
      refine ⟨last, next.levels :: levels, ?_, ?_⟩
      · simp only [run, called, ran, Option.bind_eq_bind, Option.bind_some,
          Option.pure_def]
      · rw [List.length_cons, Nat.add_comm rest.length, ← Nat.add_assoc]
        exact reached

/-- Calls of one sign put out the levels of the cycle. -/
theorem run_cycle {positive : Bool} (s : Board) {referValues : List Int}
    (nonzero : ∀ referValue ∈ referValues, referValue ≠ 0)
    (sign : ∀ referValue ∈ referValues, decide (0 < referValue) = positive)
    : ∃ t,
        run referValues s
          = some (t, cycleRun positive referValues.length s.place s.levels) := by
  induction referValues generalizing s with
  | nil => exact ⟨s, rfl⟩
  | cons referValue rest ih =>
      obtain ⟨next, called, place, levels⟩ := tmr2GlobalIrqHandler_eq (nonzero _ (.head _)) s
      obtain ⟨last, ran⟩ :=
        ih next (fun other later => nonzero other (.tail _ later))
          (fun other later => sign other (.tail _ later))
      refine ⟨last, ?_⟩
      rw [sign _ (.head _)] at levels
      simp only [run, called, ran, Option.bind_eq_bind, Option.bind_some, Option.pure_def,
        List.length_cons, cycleRun, place, levels]

/-- From the fourth call on every call changes one level at most, and 16 calls of one sign that
begin where the levels are equal move a decoder by four steps in the direction of the sign,
wherever the count wraps.
-/
theorem encoder_quadrature (s : Board) (count : s.count = 0) (referValues : List Int)
    (nonzero : ∀ referValue ∈ referValues, referValue ≠ 0) (fourth : 4 ≤ referValues.length)
    : ∃ t levels,
        run referValues s = some (t, levels)
        ∧ (∀ referValue ≠ 0,
            ∃ next,
              tmr2GlobalIrqHandler referValue t = some next
              ∧ (t.levels.1 = next.levels.1 ∨ t.levels.2 = next.levels.2))
        ∧ ∀ (sign : Int) (later : List Int),
            later.length = 16
            → (∀ referValue ∈ later, referValue ≠ 0 ∧ referValue.sign = sign)
            → t.levels.1 = t.levels.2
            → ∃ last outputs,
                run later t = some (last, outputs)
                ∧ Quadrature.decode t.levels outputs = some (4 * sign) := by
  have start : Behind 0 s :=
    {
      place := by
        change s.count.toNat % 16 = 0
        rw [count]
        rfl
      settled := fun fourth => absurd fourth (by decide)
    }
  obtain ⟨t, levels, ran, behind⟩ := run_behind start nonzero
  have settled := behind.settled (by rwa [Nat.zero_add])
  refine ⟨t, levels, ran, fun referValue nonzero => ?_, fun sign later all same equal => ?_⟩
  · obtain ⟨next, called, -, output⟩ := tmr2GlobalIrqHandler_eq nonzero t
    refine ⟨next, called, ?_⟩
    rw [output]
    exact cycleLevels_oneLevel _ _ _ settled
  · have positive : ∀ referValue ∈ later, decide (0 < referValue) = decide (0 < sign) :=
      fun referValue member =>
        decide_eq_decide.mpr ((same referValue member).2 ▸ Int.sign_pos_iff.symm)
    obtain ⟨last, ran⟩ :=
      run_cycle t (fun referValue member => (same referValue member).1) positive
    refine ⟨last, _, ran, ?_⟩
    rw [all, cycleRun_decode _ _ _ settled equal]
    obtain ⟨first, member⟩ :=
      List.exists_mem_of_length_pos (Nat.lt_of_lt_of_eq (by decide) all.symm)
    obtain ⟨firstNonzero, firstSign⟩ := same first member
    rcases Int.lt_or_gt_of_ne firstNonzero with below | above
    · rw [← firstSign, Int.sign_eq_neg_one_of_neg below]
      rfl
    · rw [← firstSign, Int.sign_eq_one_of_pos above]
      rfl

/-- Five calls with both levels high before. -/
theorem encoder_quadrature_fiveCalls
    : ∃ t levels,
        run [7, 7, 7, 7, 7] ⟨0, 0x300, 0, 0⟩ = some (t, levels)
        ∧ (∀ referValue ≠ 0,
            ∃ next,
              tmr2GlobalIrqHandler referValue t = some next
              ∧ (t.levels.1 = next.levels.1 ∨ t.levels.2 = next.levels.2))
        ∧ ∀ (sign : Int) (later : List Int),
            later.length = 16
            → (∀ referValue ∈ later, referValue ≠ 0 ∧ referValue.sign = sign)
            → t.levels.1 = t.levels.2
            → ∃ last outputs,
                run later t = some (last, outputs)
                ∧ Quadrature.decode t.levels outputs = some (4 * sign) :=
  encoder_quadrature ⟨0, 0x300, 0, 0⟩ rfl [7, 7, 7, 7, 7] (by decide) (by decide)

end At32.Encoder
