import At32.Lib.DownCounter

/-! The microsecond delay of the threads: for how long it polls SysTick. -/

namespace At32.UsDelay

open DownCounter

abbrev RT_TICK_PER_SECOND : UInt32 := 1000

/-- The ticks of a microsecond, as rt_hw_us_delay computes them. -/
def usTick (load : UInt32) : UInt32 := load / (1000000 / RT_TICK_PER_SECOND)

/-- The difference of two readings. -/
def delta (reload start now : UInt32) : UInt32 :=
  if start > now then start - now else reload + start - now

/-- The loop of rt_hw_us_delay from the reading (k) on: the number of the last reading, if it
comes within (fuel) ones.
-/
def delayLoop (val : Nat → UInt32) (start reload ticks : UInt32) : (fuel k : Nat) → Option Nat
  | 0, _ => none
  | fuel + 1, k =>
      let now := val k
      if delta reload start now < ticks then delayLoop val start reload ticks fuel (k + 1)
      else some k

/-- rt_hw_us_delay, for what LOAD and the readings of VAL show. -/
def rtHwUsDelay (fuel : Nat) (load : UInt32) (val : Nat → UInt32) (us : UInt32) : Option Nat :=
  let start := val 0
  let reload := load
  delayLoop val start reload (usTick load * us) fuel 1

/-- The readings of a counter that shows (start) first, for the ticks between them. -/
def sysTickVal (load : UInt32) (start : Nat) (gaps : Nat → Nat) (k : Nat) : UInt32 :=
  UInt32.ofNat (reading load.toNat start (elapsed gaps k))

-----------------------------------------------------------------------------------------
-- The difference of two readings
-----------------------------------------------------------------------------------------

/-- Within a period the difference is the ticks between the readings, or one less behind a wrap.
-/
theorem delta_bounds {load : UInt32} {start ticks : Nat} (inside : start ≤ load.toNat)
    (later : 1 ≤ ticks) (within : ticks ≤ load.toNat)
    : (delta load (UInt32.ofNat start) (UInt32.ofNat (reading load.toNat start ticks))).toNat
          ≤ ticks
      ∧ ticks
        ≤ (delta load (UInt32.ofNat start) (UInt32.ofNat (reading load.toNat start ticks))).toNat
          + 1 := by
  have word {value : Nat} (fits : value ≤ load.toNat) : (UInt32.ofNat value).toNat = value :=
    UInt32.toNat_ofNat_of_lt' (Nat.lt_of_le_of_lt fits load.toNat_lt)
  have width := load.toNat_lt
  rcases Nat.lt_or_ge start ticks with wrapped | down
  · have now := @word (start + load.toNat + 1 - ticks) (by omega)
    have below : ¬UInt32.ofNat start > UInt32.ofNat (start + load.toNat + 1 - ticks) := by
      rw [gt_iff_lt, UInt32.lt_iff_toNat_lt, word inside, now]
      omega
    rw [reading_of_lt wrapped (by omega), delta, if_neg below, UInt32.toNat_sub,
      UInt32.toNat_add, word inside, now]
    omega
  · have now := @word (start - ticks) (by omega)
    have above : UInt32.ofNat start > UInt32.ofNat (start - ticks) := by
      rw [gt_iff_lt, UInt32.lt_iff_toNat_lt, word inside, now]
      omega
    rw [reading_of_le down, delta, if_pos above, UInt32.toNat_sub, word inside, now]
    omega

-----------------------------------------------------------------------------------------
-- The loop
-----------------------------------------------------------------------------------------

/-- The ticks that a delay is for. -/
def delayTicks (load us : UInt32) : Nat := (usTick load).toNat * us.toNat

/-- The loop ends at a reading that is late enough, and not more than a gap too late; by
induction on the readings left, of which the ticks so far are at least as many.
-/
theorem delayLoop_ends {load ticks : UInt32} {start gap : Nat} {gaps : Nat → Nat}
    (inside : start ≤ load.toNat) (apart : ∀ k, 1 ≤ gaps k) (dense : ∀ k, gaps k ≤ gap)
    (margin : ticks.toNat + gap ≤ load.toNat) {fuel k : Nat}
    (early : elapsed gaps k ≤ ticks.toNat) (enough : ticks.toNat < elapsed gaps k + fuel)
    : ∃ last,
        delayLoop (sysTickVal load start gaps) (UInt32.ofNat start) load ticks fuel (k + 1)
          = some last
        ∧ ticks.toNat ≤ elapsed gaps last
        ∧ elapsed gaps last ≤ ticks.toNat + gap := by
  induction fuel generalizing k with
  | zero => omega
  | succ fuel ih =>
      have next : elapsed gaps (k + 1) = elapsed gaps k + gaps k := rfl
      have later := apart k
      have soon := dense k
      have ⟨notMore, notLess⟩ :=
        @delta_bounds load start (elapsed gaps (k + 1)) inside (by omega) (by omega)
      rw [delayLoop]
      change ∃ last, (if delta load (UInt32.ofNat start) (UInt32.ofNat _) < ticks then _ else _)
        = some last ∧ _
      split
      · rename_i less
        rw [UInt32.lt_iff_toNat_lt] at less
        exact ih (by omega) (by omega)
      · rename_i reached
        rw [UInt32.lt_iff_toNat_lt] at reached
        exact ⟨k + 1, rfl, by omega, by omega⟩

/-- The delay returns, for any readings not more than (gap) ticks apart, and between its ticks
and a gap more have passed then.
-/
theorem rtHwUsDelay_accurate (load us : UInt32) (start gap : Nat) (gaps : Nat → Nat)
    (inside : start ≤ load.toNat) (apart : ∀ k, 1 ≤ gaps k) (dense : ∀ k, gaps k ≤ gap)
    (margin : delayTicks load us + gap ≤ load.toNat) (fuel : Nat)
    (enough : delayTicks load us < fuel)
    : ∃ last,
        rtHwUsDelay fuel load (sysTickVal load start gaps) us = some last
        ∧ delayTicks load us ≤ elapsed gaps last
        ∧ elapsed gaps last ≤ delayTicks load us + gap := by
  have width := load.toNat_lt
  have ticks : (usTick load * us).toNat = delayTicks load us := by
    rw [UInt32.toNat_mul]
    exact Nat.mod_eq_of_lt (Nat.lt_of_le_of_lt (Nat.le_of_add_right_le margin) width)
  rw [← ticks] at margin enough ⊢
  exact delayLoop_ends inside apart dense margin (Nat.zero_le _)
    (Nat.lt_of_lt_of_le enough (Nat.le_add_left _ _))

/-- Ten microseconds of a counter at 24 MHz that wraps, polled every seven ticks. -/
theorem rtHwUsDelay_accurate_tenUs
    : ∃ last,
        rtHwUsDelay 300 23999 (sysTickVal 23999 100 fun _ => 7) 10 = some last
        ∧ delayTicks 23999 10 ≤ elapsed (fun _ => 7) last
        ∧ elapsed (fun _ => 7) last ≤ delayTicks 23999 10 + 7 :=
  rtHwUsDelay_accurate 23999 10 100 7 (fun _ => 7) (by decide) (fun _ => by decide)
    (fun _ => by decide) (by decide) 300 (by decide)

end At32.UsDelay
