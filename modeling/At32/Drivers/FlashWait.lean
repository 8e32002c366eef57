import At32.Drivers.Flash
import At32.Lib.Polling
import Mathlib.Order.Monotone.Basic

/-! What a wait for the flash controller returns against the statuses that it polls, and when an
operation that completed is reported so.
-/

namespace At32.Flash

open Polling

variable (c : Controller)

/-- The state before the call of Flash_GetStatus with this number. -/
def beforeStatus (n : Nat) (f : State) : State := before (flashGetStatus c) id n f

/-- What the call of Flash_GetStatus with this number returns. -/
def statusAt (n : Nat) (f : State) : FlashStatus := polled (flashGetStatus c) id n f

/-- A wait returns FLASH_TIMEOUT for a last status that is busy, and each other last status as it
is.
-/
def Truthful (timeout : Nat) (f : State) : Prop :=
  ∃ n,
    (flashWaitProcess c timeout f).2 = beforeStatus c (n + 1) f
    ∧ if (flashWaitProcess c timeout f).1 = .timeout then statusAt c n f = .bsy
      else (flashWaitProcess c timeout f).1 = statusAt c n f

/-- The statuses are busy until the one with which the timeout is used up, and that is this. -/
def EndsLate (timeout : Nat) (status : FlashStatus) (f : State) : Prop :=
  (∀ n < timeout, statusAt c n f = .bsy) ∧ statusAt c timeout f = status

/-- The state in which Flash_ErasePage waits for the end of the erase. -/
def erasing (addr : UInt32) (f : State) : State :=
  let f := (flashWaitProcess c TIMEOUT f).2
  { f with memory := f.memory.erasePage blank (c.page / 2) (addr.toNat / c.page) }

/-- The state in which Flash_WriteHalfWord waits for the end of the write. -/
def programming (addr : UInt32) (data : UInt16) (f : State) : State :=
  let f := (flashWaitProcess c TIMEOUT f).2
  { f with memory := f.memory.program blank (addr.toNat / 2) data }

/-- An operation for whose end a function waits from a state on, with what the function returns:
where the last status is complete, it is reported so.
-/
def Reported (begun : State) (returned : FlashStatus × State) : Prop :=
  ∃ n,
    returned.2 = beforeStatus c (n + 1) begun
    ∧ (statusAt c n begun = .complete → returned.1 = .complete)

-----------------------------------------------------------------------------------------
-- The statuses
-----------------------------------------------------------------------------------------

theorem beforeStatus_succ (n : Nat) (f : State)
    : beforeStatus c (n + 1) f = (flashGetStatus c (beforeStatus c n f)).2 := by
  induction n generalizing f with
  | zero => rfl
  | succ n ih => exact ih (flashGetStatus c f).2

theorem flashGetStatus_polls (f : State) : f.polls < (flashGetStatus c f).2.polls := by
  unfold flashGetStatus
  split_ifs <;> simp only [State.poll] <;> omega

/-- Flash_GetStatus never returns FLASH_TIMEOUT. -/
theorem flashGetStatus_timeout (f : State) : (flashGetStatus c f).1 ≠ .timeout := by
  unfold flashGetStatus
  split_ifs <;> simp

/-- More statuses take more reads of the register. -/
theorem beforeStatus_strictMono (f : State) : StrictMono fun n => (beforeStatus c n f).polls :=
  strictMono_nat_of_lt_succ fun n => by
    rw [beforeStatus_succ]
    exact flashGetStatus_polls c _

/-- The state behind a number of statuses tells the number. -/
theorem beforeStatus_injective {n m : Nat} {f : State}
    (same : beforeStatus c n f = beforeStatus c m f)
    : n = m :=
  (beforeStatus_strictMono c f).injective (congrArg State.polls same)

-----------------------------------------------------------------------------------------
-- The wait
-----------------------------------------------------------------------------------------

/-- The first status and the loop are one wait; by induction on the timeout. -/
theorem flashWaitLoop_eq (timeout : Nat) (f : State)
    : flashWaitLoop c timeout (flashGetStatus c f).1 (flashGetStatus c f).2
      = wait (flashGetStatus c) id (· = .bsy) timeout f := by
  induction timeout generalizing f with
  | zero => rfl
  | succ timeout ih =>
      simp only [flashWaitLoop, wait, id_eq, ih]

/-- The last status of a wait is returned, unless it uses up the timeout. -/
theorem flashWaitProcess_eq {timeout n : Nat} {f : State}
    (last : LastPoll (flashGetStatus c) id (· = .bsy) timeout n f)
    : flashWaitProcess c timeout f
      = (if n = timeout then .timeout else statusAt c n f, beforeStatus c (n + 1) f) := by
  have left : timeout - n = 0 ↔ n = timeout := by
    have within := last.within
    omega
  have waited : flashWaitProcess c timeout f
      = if timeout - n = 0 then (.timeout, (flashGetStatus c (beforeStatus c n f)).2)
        else (statusAt c n f, (flashGetStatus c (beforeStatus c n f)).2) := by
    simp only [flashWaitProcess, flashWaitLoop_eq, last.wait_eq]
    rfl
  rw [waited, beforeStatus_succ]
  simp only [left]
  split <;> rfl

/-- A wait ends late where its last status uses up the timeout. -/
theorem endsLate_iff {timeout n : Nat} {f : State}
    (last : LastPoll (flashGetStatus c) id (· = .bsy) timeout n f) (status : FlashStatus)
    : EndsLate c timeout status f ↔ n = timeout ∧ statusAt c n f = status := by
  constructor
  · intro ⟨waiting, late⟩
    have all : n = timeout :=
      last.last.elim id fun ended =>
        Nat.le_antisymm last.within (Nat.le_of_not_lt fun early => ended (waiting n early))
    exact ⟨all, all ▸ late⟩
  · intro ⟨all, late⟩
    subst all
    exact ⟨last.waiting, late⟩

/-- A wait is truthful exactly when it does not end late with a status that is not busy. -/
theorem truthful_iff (timeout : Nat) (f : State)
    : Truthful c timeout f ↔ ¬∃ status, status ≠ .bsy ∧ EndsLate c timeout status f := by
  obtain ⟨n, last⟩ :=
    @exists_lastPoll _ _ (flashGetStatus c) id (· = .bsy) _ timeout f
  have never : statusAt c n f ≠ .timeout := flashGetStatus_timeout c _
  simp only [endsLate_iff c last, Truthful, flashWaitProcess_eq c last]
  constructor
  · rintro ⟨m, same, truthful⟩ ⟨status, other, all, late⟩
    obtain rfl := Nat.succ.inj (beforeStatus_injective c same)
    rw [if_pos all, if_pos rfl] at truthful
    exact other (late.symm.trans truthful)
  · intro inTime
    refine ⟨n, rfl, ?_⟩
    by_cases all : n = timeout
    · rw [if_pos all, if_pos rfl]
      by_contra other
      exact inTime ⟨statusAt c n f, other, all, rfl⟩
    · rw [if_neg all, if_neg never]

/-- A wait for the end of an operation reports it exactly when it does not end late with the
operation complete.
-/
theorem reported_iff (timeout : Nat) (begun : State)
    : Reported c begun (flashWaitProcess c timeout begun)
      ↔ ¬EndsLate c timeout .complete begun := by
  obtain ⟨n, last⟩ :=
    @exists_lastPoll _ _ (flashGetStatus c) id (· = .bsy) _ timeout begun
  rw [endsLate_iff c last, flashWaitProcess_eq c last]
  constructor
  · rintro ⟨m, same, reported⟩ ⟨all, complete⟩
    obtain rfl := Nat.succ.inj (beforeStatus_injective c same)
    rw [if_pos all] at reported
    have impossible : FlashStatus.timeout = .complete := reported complete
    exact absurd impossible (by decide)
  · intro inTime
    refine ⟨n, rfl, fun complete => ?_⟩
    rw [if_neg fun all => inTime ⟨all, complete⟩]
    exact complete

theorem flashErasePage_waits (addr : UInt32) {f : State}
    (ready : (flashWaitProcess c TIMEOUT f).1 = .complete)
    : flashErasePage c addr f = flashWaitProcess c TIMEOUT (erasing c addr f) := by
  simp only [flashErasePage, ready, if_true, erasing]

theorem flashWriteHalfWord_waits (addr : UInt32) (data : UInt16) {f : State}
    (ready : (flashWaitProcess c TIMEOUT f).1 = .complete)
    : flashWriteHalfWord c addr data f
      = flashWaitProcess c TIMEOUT (programming c addr data f) := by
  simp only [flashWriteHalfWord, ready, if_true, programming]

/-- For every controller, timeout and state: a wait is truthful exactly when it does not end late
with a status that is not busy. An erase or a write that is begun, behind a first wait that finds
the controller ready, is reported exactly when the wait for its end does not end late with it
complete.
-/
theorem flashWaitProcess_truthful_iff (timeout : Nat) (addr : UInt32) (data : UInt16) (f : State)
    : (Truthful c timeout f ↔ ¬∃ status, status ≠ .bsy ∧ EndsLate c timeout status f)
      ∧ ((flashWaitProcess c TIMEOUT f).1 = .complete
        → (Reported c (erasing c addr f) (flashErasePage c addr f)
            ↔ ¬EndsLate c TIMEOUT .complete (erasing c addr f))
          ∧ (Reported c (programming c addr data f) (flashWriteHalfWord c addr data f)
            ↔ ¬EndsLate c TIMEOUT .complete (programming c addr data f))) := by
  refine ⟨truthful_iff c timeout f, fun ready => ?_⟩
  rw [flashErasePage_waits c addr ready, flashWriteHalfWord_waits c addr data ready]
  exact ⟨reported_iff c TIMEOUT _, reported_iff c TIMEOUT _⟩

-----------------------------------------------------------------------------------------
-- A controller that is just too slow
-----------------------------------------------------------------------------------------

/-- A controller that is busy for a number of reads, and idle then. -/
def slow (reads : Nat) : Controller :=
  { page := 2048, sts := fun read => if read < reads then FLASH_FLAG_BSY else 0 }

/-- An erased flash at power-on. -/
def powerOn : State := { memory := { cells := fun _ => blank, log := [] }, polls := 0 }

theorem slow_busy {reads : Nat} {f : State} (early : f.polls < reads)
    : flashGetStatus (slow reads) f = (.bsy, f.poll) := by
  have busy : (slow reads).sts f.polls = FLASH_FLAG_BSY := if_pos early
  rw [flashGetStatus, busy]
  rfl

theorem slow_idle {reads : Nat} {f : State} (late : reads ≤ f.polls)
    : flashGetStatus (slow reads) f = (.complete, f.poll.poll.poll) := by
  have idle (k : Nat) : (slow reads).sts (f.polls + k) = 0 :=
    if_neg (Nat.not_lt.mpr (Nat.le_add_right_of_le late))
  have first : (slow reads).sts f.polls = 0 := idle 0
  rw [flashGetStatus, first, idle 1, idle 2]
  rfl

/-- The statuses take a read each; by induction on them. -/
theorem slow_polls {reads n : Nat} (within : n ≤ reads)
    : (beforeStatus (slow reads) n powerOn).polls = n := by
  induction n with
  | zero => rfl
  | succ n ih =>
      have polls := ih (Nat.le_of_succ_le within)
      rw [beforeStatus_succ, slow_busy (by rwa [polls]), State.poll, polls]

/-- It is complete with the last status of a wait. -/
theorem slow_endsLate (reads : Nat) : EndsLate (slow reads) reads .complete powerOn := by
  refine ⟨fun n early => ?_, ?_⟩
  · have busy := @slow_busy reads (beforeStatus (slow reads) n powerOn)
      (by rwa [slow_polls (Nat.le_of_lt early)])
    exact congrArg Prod.fst busy
  · have idle := @slow_idle reads (beforeStatus (slow reads) reads powerOn)
      (Nat.le_of_eq (slow_polls (Nat.le_refl reads)).symm)
    exact congrArg Prod.fst idle

/-- The wait for it times out. -/
theorem slow_untruthful : ¬Truthful (slow TIMEOUT) TIMEOUT powerOn := fun truthful =>
  (truthful_iff (slow TIMEOUT) TIMEOUT powerOn).mp truthful
    ⟨.complete, by decide, slow_endsLate TIMEOUT⟩

end At32.Flash
