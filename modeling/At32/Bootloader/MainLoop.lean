import At32.Bootloader.Board
import At32.Bootloader.Parser

/-! The main loop of the bootloader under the SysTick interrupt. An interrupt is a step
between the steps of the loop: its handler reads nothing of the parser but the connection
flag, which a byte sets at most once, so one during a step acts as one before or after it.
-/

namespace At32.Bootloader

open Flash Transducer

/-- What the loop does next; it is left for good by a jump to the image or a reset. -/
inductive Phase
  | poll
  | test
  | left
  deriving DecidableEq, Repr

/-- The bootloader, the flash, and the variables of main.c. -/
structure Mcu where
  bl : State
  flash : Flash.State
  jumpApp : UInt8
  timeout : UInt32
  tickInt : Bool
  phase : Phase

/-- Static data is zero at power-on and the interrupt is enabled before the loop. -/
def Mcu.powerOn (fp : FramingPacket) (flash : Flash.State) : Mcu :=
  {
    bl := .powerOn fp
    flash
    jumpApp := 0
    timeout := 0
    tickInt := true
    phase := .poll
  }

/-- One poll of the UART with or without a byte, one test for the jump, one interrupt. -/
inductive Event
  | receive (data : UInt8)
  | noData
  | test
  | tick
  deriving DecidableEq, Repr

inductive Action
  | call (call : Call)
  | jumpToImage (addr : UInt32)
  deriving DecidableEq

/-- A run stops at a fault of the parser, and at an event that is not due. -/
inductive Halt
  | fault (fault : Fault)
  | notDue
  deriving DecidableEq

def blConnect (s : State) : UInt8 := s.blVariate.appFlag

/-- A word of the vector table, which is two halfwords of the flash. -/
def vectorTable (appaddr : UInt32) (index : UInt32) (f : Flash.State) : UInt32 :=
  (flashReadHalfWord (appaddr + 4 * index) f).toUInt32
  ||| (flashReadHalfWord (appaddr + 4 * index + 2) f).toUInt32 <<< 16

def checkAppPc (ops : BlTestFuncOps) (appaddr : UInt32) (f : Flash.State) : UInt8 :=
  let pc := vectorTable appaddr 1 f
  if pc < ops.appAddress ∨ ops.appAddress + 128 * 1024 < pc then 0 else 1

def sysTickHandler (m : Mcu) : Mcu :=
  let ticked := { m with timeout := m.timeout + 1 }
  if 400 < m.timeout then
    -- the connection is sampled this once: the interrupt is off from here on
    { ticked with
      jumpApp := if blConnect m.bl = 0 then 1 else m.jumpApp
      tickInt := false }
  else
    ticked

/-- One event. The reset callback of main.c does not return. -/
def mainStep (ops : BlTestFuncOps) (c : Controller) (m : Mcu)
    : Event → Except Halt (Mcu × List Action)
  | .receive data =>
      if m.phase = .poll then
        match analysisPacket ops m.bl data with
        | .error fault => .error (.fault fault)
        | .ok (bl, calls) =>
            .ok
              ({ m with
                  bl
                  flash := flashAfter c calls m.flash
                  phase := if Call.resetMcu ∈ calls then .left else .test },
                calls.map .call)
      else
        .error .notDue
  | .noData => if m.phase = .poll then .ok ({ m with phase := .test }, []) else .error .notDue
  | .test =>
      if m.phase = .test then
        if m.jumpApp ≠ 0 ∧ checkAppPc ops APP_ADDRESS m.flash ≠ 0 then
          .ok ({ m with phase := .left }, [.jumpToImage APP_ADDRESS])
        else
          .ok ({ m with phase := .poll }, [])
      else
        .error .notDue
  | .tick =>
      if m.phase ≠ .left ∧ m.tickInt then .ok (sysTickHandler m, []) else .error .notDue

-----------------------------------------------------------------------------------------
-- What one event of the main loop can do
-----------------------------------------------------------------------------------------

/-- The event does not have the first start byte accepted after the interrupt has already
asked for the jump.
-/
def Mcu.StartsInTime (m : Mcu) (event : Event) : Prop :=
  event = .receive FramingPacketType.startByte
  → m.phase = .poll
  → m.bl.blVariate.status = .start
  → m.bl.blVariate.appFlag = 0
  → m.jumpApp = 0

/-- A byte keeps the connection flag, except that a start byte sets it; by cases on the
status.
-/
theorem analysisPacket_appFlag {ops : BlTestFuncOps} {s t : State} {data : UInt8}
    {calls : List Call} (taken : analysisPacket ops s data = .ok (t, calls))
    : t.blVariate.appFlag = s.blVariate.appFlag
      ∨ (s.blVariate.status = .start
        ∧ data = FramingPacketType.startByte
        ∧ t.blVariate.appFlag = 1) := by
  cases status : s.blVariate.status with
  | start =>
      simp only [analysisPacket, status] at taken
      split at taken
      · rename_i start
        obtain ⟨rfl, _⟩ := Prod.mk.inj (Except.ok.inj taken)
        exact Or.inr ⟨rfl, start.symm, rfl⟩
      · obtain ⟨rfl, _⟩ := Prod.mk.inj (Except.ok.inj taken)
        exact Or.inl rfl
  | cmd =>
      simp only [analysisPacket, status, analysisCmd, Except.ok.injEq] at taken
      left
      split at taken
      all_goals
        obtain ⟨rfl, _⟩ := Prod.mk.inj taken
        rfl
  | lenLow | lenHigh | crcLow | crcHigh =>
      simp only [analysisPacket, status, Except.ok.injEq] at taken
      obtain ⟨rfl, _⟩ := Prod.mk.inj taken
      exact Or.inl rfl
  | data =>
      simp only [analysisPacket, status, analysisData] at taken
      left
      split at taken
      · split at taken
        · have same := checkCrc_sameParser taken
          simp only [State.parser, Prod.mk.injEq] at same
          exact same.2.2.2
        · obtain ⟨rfl, _⟩ := Prod.mk.inj (Except.ok.inj taken)
          rfl
      · cases taken

/-- What an event can do: a byte goes to the parser, the interrupt handler runs, the test
jumps while the jump is asked for, or nothing of the parser and the request changes.
-/
theorem mainStep_cases {ops : BlTestFuncOps} {c : Controller} {m t : Mcu} {event : Event}
    {actions : List Action} (taken : mainStep ops c m event = .ok (t, actions))
    : (∃ data calls,
        event = .receive data
        ∧ m.phase = .poll
        ∧ analysisPacket ops m.bl data = .ok (t.bl, calls)
        ∧ t.jumpApp = m.jumpApp
        ∧ actions = calls.map .call)
      ∨ (t = sysTickHandler m ∧ actions = [])
      ∨ (m.jumpApp ≠ 0
        ∧ t.bl = m.bl
        ∧ t.jumpApp = m.jumpApp
        ∧ actions = [.jumpToImage APP_ADDRESS])
      ∨ (t.bl = m.bl ∧ t.jumpApp = m.jumpApp ∧ actions = []) := by
  cases event with
  | receive data =>
      simp only [mainStep] at taken
      split at taken
      · rename_i phase
        split at taken
        · cases taken
        · rename_i bl calls parsed
          obtain ⟨rfl, rfl⟩ := Prod.mk.inj (Except.ok.inj taken)
          exact Or.inl ⟨data, calls, rfl, phase, parsed, rfl, rfl⟩
      · cases taken
  | noData =>
      simp only [mainStep] at taken
      split at taken
      · obtain ⟨rfl, rfl⟩ := Prod.mk.inj (Except.ok.inj taken)
        exact Or.inr (Or.inr (Or.inr ⟨rfl, rfl, rfl⟩))
      · cases taken
  | test =>
      simp only [mainStep] at taken
      split at taken
      · split at taken
        · rename_i asked
          obtain ⟨rfl, rfl⟩ := Prod.mk.inj (Except.ok.inj taken)
          exact Or.inr (Or.inr (Or.inl ⟨asked.1, rfl, rfl, rfl⟩))
        · obtain ⟨rfl, rfl⟩ := Prod.mk.inj (Except.ok.inj taken)
          exact Or.inr (Or.inr (Or.inr ⟨rfl, rfl, rfl⟩))
      · cases taken
  | tick =>
      simp only [mainStep] at taken
      split at taken
      · obtain ⟨rfl, rfl⟩ := Prod.mk.inj (Except.ok.inj taken)
        exact Or.inr (Or.inl ⟨rfl, rfl⟩)
      · cases taken

/-- A connected bootloader is not asked to jump. -/
def Mcu.Unasked (m : Mcu) : Prop := m.bl.blVariate.appFlag ≠ 0 → m.jumpApp = 0

/-- The handler asks for the jump only while nothing is connected. -/
theorem sysTickHandler_unasked {m : Mcu} (unasked : m.Unasked)
    : (sysTickHandler m).Unasked ∧ (sysTickHandler m).bl = m.bl := by
  simp only [sysTickHandler]
  split
  · refine ⟨fun connected => ?_, rfl⟩
    have flag : blConnect m.bl ≠ 0 := connected
    simp only [if_neg flag]
    exact unasked connected
  · exact ⟨unasked, rfl⟩

/-- Every event that starts in time keeps a connected bootloader from being asked. -/
theorem unasked_step {ops : BlTestFuncOps} {c : Controller} {m t : Mcu} {event : Event}
    {actions : List Action} (unasked : m.Unasked) (inTime : m.StartsInTime event)
    (taken : mainStep ops c m event = .ok (t, actions))
    : t.Unasked := by
  rcases mainStep_cases taken with
    ⟨data, calls, rfl, phase, parsed, same, _⟩ | ⟨rfl, _⟩ | ⟨_, bl, same, _⟩ | ⟨bl, same, _⟩
  · intro connected
    rw [same]
    by_cases before : m.bl.blVariate.appFlag = 0
    · rcases analysisPacket_appFlag parsed with kept | ⟨status, rfl, _⟩
      · exact (connected (kept.trans before)).elim
      · exact inTime rfl phase status before
    · exact unasked before
  · exact (sysTickHandler_unasked unasked).1
  · rw [Mcu.Unasked, bl, same]
    exact unasked
  · rw [Mcu.Unasked, bl, same]
    exact unasked

/-- A connected bootloader that is not asked to jump stays so, and does not jump. -/
theorem connected_step {ops : BlTestFuncOps} {c : Controller} {m t : Mcu} {event : Event}
    {actions : List Action} (connected : m.bl.blVariate.appFlag ≠ 0) (unasked : m.jumpApp = 0)
    (taken : mainStep ops c m event = .ok (t, actions))
    : (t.bl.blVariate.appFlag ≠ 0 ∧ t.jumpApp = 0)
      ∧ ∀ action ∈ actions, ∀ addr, action ≠ .jumpToImage addr := by
  rcases mainStep_cases taken with
    ⟨data, calls, rfl, phase, parsed, same, rfl⟩ | ⟨rfl, rfl⟩ | ⟨asked, _⟩ | ⟨bl, same, rfl⟩
  · refine ⟨⟨?_, same.trans unasked⟩, ?_⟩
    · rcases analysisPacket_appFlag parsed with kept | ⟨_, _, set⟩
      · rwa [kept]
      · rw [set]
        decide
    · intro action member addr
      obtain ⟨call, _, rfl⟩ := List.mem_map.mp member
      simp
  · obtain ⟨still, bl⟩ := sysTickHandler_unasked (fun _ => unasked : m.Unasked)
    have connected' : (sysTickHandler m).bl.blVariate.appFlag ≠ 0 := by rwa [bl]
    exact ⟨⟨connected', still connected'⟩, by simp⟩
  · exact (asked unasked).elim
  · exact ⟨⟨by rwa [bl], same.trans unasked⟩, by simp⟩

-----------------------------------------------------------------------------------------
-- Whole runs from power-on
-----------------------------------------------------------------------------------------

/-- Once a start byte has been accepted, no later part of the run jumps to the image. -/
def NoJumpInSession (ops : BlTestFuncOps) (c : Controller) (start : Mcu) (events : List Event)
    : Prop :=
  ∀ before after,
    events = before ++ after
    → ∀ m actions,
        run (mainStep ops c) start before = .ok (m, actions)
        → m.bl.blVariate.appFlag = 1
        → ∀ t later,
            run (mainStep ops c) m after = .ok (t, later)
            → ∀ addr, .jumpToImage addr ∉ later

/-- In every run from power-on in which no session starts after the interrupt has asked for
the jump, no session is left by a jump. Witness: a connected bootloader is never asked, and
stays connected.
-/
theorem noJump_of_startsInTime (ops : BlTestFuncOps) (c : Controller) (fp : FramingPacket)
    (f : Flash.State) (events : List Event)
    (inTime : StepsMeet (mainStep ops c) Mcu.StartsInTime (.powerOn fp f) events)
    : NoJumpInSession ops c (.powerOn fp f) events := by
  intro before after split m actions ran connected t later ranLater addr member
  rw [split] at inTime
  have unasked : m.Unasked :=
    stepsMeet_invariant (fun _ _ _ _ inv met taken => unasked_step inv met taken)
      (fun _ => rfl : (Mcu.powerOn fp f).Unasked) inTime ran
  have flag : m.bl.blVariate.appFlag ≠ 0 := by
    rw [connected]
    decide
  have quiet := run_invariant
    (fun _ _ _ _ (inv : _ ∧ _) taken => connected_step inv.1 inv.2 taken)
    ⟨flag, unasked flag⟩ ranLater
  exact quiet.2 _ member addr rfl

/-- A flash whose vector table points 64 KiB into the application. -/
def validImage : Flash.State := { memory := { cells := fun _ => 0x0801, log := [] }, polls := 0 }

/-- Events that are no start byte are in time. -/
theorem stepsMeet_startsInTime {ops : BlTestFuncOps} {c : Controller} (m : Mcu)
    {events : List Event} (other : .receive FramingPacketType.startByte ∉ events)
    : StepsMeet (mainStep ops c) Mcu.StartsInTime m events := by
  refine stepsMeet_iff_prefixes.mpr fun before event after split _ _ _ => ?_
  intro start
  rw [split, start] at other
  exact (other (List.mem_append_right before List.mem_cons_self)).elim

/-- With a start byte in time, the interrupts behind it ask for nothing, although there is a valid
image to jump to.
-/
theorem noJump_of_startsInTime_connected
    : NoJumpInSession blTestFunc ⟨2048, fun _ => 0⟩ (.powerOn .zero validImage)
        (.receive FramingPacketType.startByte
          :: .test
          :: (List.replicate 402 .tick ++ [.noData, .test])) := by
  refine noJump_of_startsInTime _ _ _ _ _ ⟨fun _ _ _ _ => rfl, fun next _ _ => ?_⟩
  refine stepsMeet_startsInTime next fun member => ?_
  rcases List.mem_cons.mp member with test | later
  · cases test
  · rcases List.mem_append.mp later with tick | last
    · cases List.eq_of_mem_replicate tick
    · simp at last

/-- Until the timeout, interrupts only count; by induction on their number. -/
theorem run_ticks (ops : BlTestFuncOps) (c : Controller) (m : Mcu) (count : Nat)
    (enabled : m.phase ≠ .left ∧ m.tickInt) (below : m.timeout.toNat + count ≤ 401)
    : run (mainStep ops c) m (List.replicate count .tick)
      = .ok ({ m with timeout := m.timeout + UInt32.ofNat count }, []) := by
  induction count generalizing m with
  | zero => simp
  | succ count ih =>
      have early : ¬ 400 < m.timeout := by
        rw [UInt32.lt_iff_toNat_lt]
        have bound : UInt32.toNat 400 = 400 := rfl
        omega
      have next : (m.timeout + 1).toNat = m.timeout.toNat + 1 := by
        rw [UInt32.toNat_add, UInt32.toNat_one]
        omega
      have ticked : mainStep ops c m .tick = .ok ({ m with timeout := m.timeout + 1 }, []) := by
        simp only [mainStep, if_pos enabled, sysTickHandler, if_neg early]
      have later := ih ({ m with timeout := m.timeout + 1 } : Mcu) enabled (by
        simp only [next]
        omega)
      have total : m.timeout + 1 + UInt32.ofNat count = m.timeout + UInt32.ofNat (count + 1) := by
        rw [UInt32.ofNat_add, UInt32.add_assoc, UInt32.add_comm 1]
        rfl
      rw [List.replicate_succ, run_cons_silent ticked, later, total]

/-- On the board of main.c with a valid image: the 402nd interrupt asks for the jump, then
the first start byte is received, and the test that follows leaves the session.
-/
theorem noJump_fails_latched
    : ¬ NoJumpInSession blTestFunc ⟨2048, fun _ => 0⟩ (.powerOn .zero validImage)
        (List.replicate 401 .tick ++ [.tick, .receive 0x5A] ++ [.test]) := by
  intro safe
  have ticks := run_ticks blTestFunc ⟨2048, fun _ => 0⟩ (.powerOn .zero validImage) 401
    (by decide) (by decide)
  have session : run (mainStep blTestFunc ⟨2048, fun _ => 0⟩)
      { Mcu.powerOn .zero validImage with timeout := 0 + UInt32.ofNat 401 }
      [.tick, .receive 0x5A]
      = .ok
          ({
              bl :=
                { State.powerOn .zero with
                  fp.startByte := 0x5A
                  blVariate.appFlag := 1
                  blVariate.status := .cmd }
              flash := validImage
              jumpApp := 1
              timeout := 402
              tickInt := false
              phase := .test
            }, []) := by
    rfl
  exact safe _ [.test] rfl _ _ (run_append ticks session) rfl _ _ rfl APP_ADDRESS (by simp)

end At32.Bootloader
