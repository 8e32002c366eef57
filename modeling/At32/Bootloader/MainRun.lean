import At32.Bootloader.MainLoop

/-! Whole runs of the main loop. Whatever the interrupts and the empty polls between the bytes,
a run is one of the parser over the bytes, with the callbacks done to the flash in order.
-/

namespace At32.Bootloader

open Flash Transducer

/-- The bytes that an event brings to the parser. -/
def Event.bytes : Event → List UInt8
  | .receive data => [data]
  | _ => []

/-- The bytes that a run brings to the parser. -/
def received (events : List Event) : List UInt8 := events.flatMap Event.bytes

/-- The call of the parser that an action is. -/
def Action.call? : Action → Option Call
  | .call made => some made
  | .jumpToImage _ => none

/-- The actions after which the loop is left. -/
def Action.Leaves (action : Action) : Prop :=
  action = .call .resetMcu ∨ ∃ addr, action = .jumpToImage addr

@[simp] theorem filterMap_call (calls : List Call)
    : (calls.map Action.call).filterMap Action.call? = calls := by
  induction calls with
  | nil => rfl
  | cons call rest ih => exact congrArg (call :: ·) ih

theorem exists_leaves_call (calls : List Call)
    : (∃ action ∈ calls.map Action.call, action.Leaves) ↔ .resetMcu ∈ calls := by
  constructor
  · rintro ⟨action, member, leaves⟩
    obtain ⟨call, inside, rfl⟩ := List.mem_map.mp member
    rcases leaves with reset | ⟨addr, jump⟩
    · cases reset
      exact inside
    · cases jump
  · intro member
    exact ⟨.call .resetMcu, List.mem_map_of_mem member, Or.inl rfl⟩

variable {ops : BlTestFuncOps} {c : Controller}

-----------------------------------------------------------------------------------------
-- One event
-----------------------------------------------------------------------------------------

/-- What one event does to the parser and to the flash, and when it leaves the loop; by cases on
the event.
-/
theorem mainStep_acts {m t : Mcu} {event : Event} {actions : List Action}
    (taken : mainStep ops c m event = .ok (t, actions))
    : run (analysisPacket ops) m.bl event.bytes = .ok (t.bl, actions.filterMap Action.call?)
      ∧ t.flash = flashAfter c (actions.filterMap Action.call?) m.flash
      ∧ m.phase ≠ .left
      ∧ (t.phase = .left ↔ ∃ action ∈ actions, action.Leaves) := by
  cases event with
  | receive data =>
      simp only [mainStep] at taken
      split at taken
      · rename_i polled
        split at taken
        · cases taken
        · rename_i bl calls parsed
          obtain ⟨rfl, rfl⟩ := Prod.mk.inj (Except.ok.inj taken)
          rw [filterMap_call, exists_leaves_call]
          refine ⟨by rw [Event.bytes, run_singleton, parsed], rfl, by rw [polled]; decide, ?_⟩
          by_cases reset : Call.resetMcu ∈ calls <;> simp [reset]
      · cases taken
  | noData =>
      simp only [mainStep] at taken
      split at taken
      · rename_i polled
        obtain ⟨rfl, rfl⟩ := Prod.mk.inj (Except.ok.inj taken)
        exact ⟨rfl, rfl, by rw [polled]; decide, by simp⟩
      · cases taken
  | test =>
      simp only [mainStep] at taken
      split at taken
      · rename_i tested
        split at taken
        · obtain ⟨rfl, rfl⟩ := Prod.mk.inj (Except.ok.inj taken)
          refine ⟨rfl, by rfl, by rw [tested]; decide, fun _ => ?_, fun _ => rfl⟩
          exact ⟨_, List.mem_singleton_self _, Or.inr ⟨_, rfl⟩⟩
        · obtain ⟨rfl, rfl⟩ := Prod.mk.inj (Except.ok.inj taken)
          exact ⟨rfl, rfl, by rw [tested]; decide, by simp⟩
      · cases taken
  | tick =>
      simp only [mainStep] at taken
      split at taken
      · rename_i enabled
        obtain ⟨rfl, rfl⟩ := Prod.mk.inj (Except.ok.inj taken)
        have kept : (sysTickHandler m).bl = m.bl ∧ (sysTickHandler m).flash = m.flash
            ∧ (sysTickHandler m).phase = m.phase := by
          simp only [sysTickHandler]
          split <;> exact ⟨rfl, rfl, rfl⟩
        obtain ⟨bl, flash, phase⟩ := kept
        refine ⟨by rw [bl]; rfl, flash, enabled.1, ?_⟩
        rw [phase]
        exact iff_of_false enabled.1 (by simp)
      · cases taken

-----------------------------------------------------------------------------------------
-- Whole runs
-----------------------------------------------------------------------------------------

/-- A run of the main loop is a run of the parser over its bytes, and does its calls to the
flash.
-/
theorem mainRun_parses {m t : Mcu} {events : List Event} {actions : List Action}
    (ran : run (mainStep ops c) m events = .ok (t, actions))
    : run (analysisPacket ops) m.bl (received events)
        = .ok (t.bl, actions.filterMap Action.call?)
      ∧ t.flash = flashAfter c (actions.filterMap Action.call?) m.flash := by
  constructor
  · exact run_simulates Mcu.bl Event.bytes Action.call?
      (fun _ _ _ _ taken => (mainStep_acts taken).1) ran
  · have keeps (sent : List Action) (s : Mcu) (event : Event) (next : Mcu) (made : List Action)
        (kept : s.flash = flashAfter c (sent.filterMap Action.call?) m.flash)
        (taken : mainStep ops c s event = .ok (next, made))
        : next.flash = flashAfter c ((sent ++ made).filterMap Action.call?) m.flash := by
      rw [(mainStep_acts taken).2.1, kept, List.filterMap_append]
      exact List.foldl_append.symm
    have start : m.flash = flashAfter c (([] : List Action).filterMap Action.call?) m.flash := rfl
    exact run_outputs keeps start ran

/-- At power-on the loop has not been left. -/
theorem powerOn_inside (fp : FramingPacket) (f : Flash.State)
    : (Mcu.powerOn fp f).phase ≠ .left := by
  intro left
  cases left

/-- The loop is left by a reset or a jump, and does nothing behind it: all actions but those of
the last event leave nothing.
-/
theorem mainRun_leaves {m t : Mcu} {events : List Event} {actions : List Action}
    (inside : m.phase ≠ .left) (ran : run (mainStep ops c) m events = .ok (t, actions))
    : t.phase = .left ↔ ∃ action ∈ actions, action.Leaves := by
  induction events generalizing m actions with
  | nil =>
      obtain ⟨rfl, rfl⟩ := Prod.mk.inj (Except.ok.inj ran)
      exact iff_of_false inside (by simp)
  | cons event rest ih =>
      obtain ⟨next, first, later, taken, tail, rfl⟩ := run_cons_iff.mp ran
      obtain ⟨_, _, _, leaves⟩ := mainStep_acts taken
      simp only [List.mem_append, or_and_right, exists_or, ← leaves]
      by_cases left : next.phase = .left
      · refine iff_of_true ?_ (Or.inl left)
        cases rest with
        | nil =>
            obtain ⟨rfl, _⟩ := Prod.mk.inj (Except.ok.inj tail)
            exact left
        | cons event rest =>
            obtain ⟨_, _, _, again, _, _⟩ := run_cons_iff.mp tail
            exact ((mainStep_acts again).2.2.1 left).elim
      · rw [ih left tail]
        exact ⟨Or.inr, fun either => either.resolve_left left⟩

/-- The loop is left by a reset or by a jump, not by both. -/
theorem mainRun_noJump {m t : Mcu} {events : List Event} {actions : List Action}
    (ran : run (mainStep ops c) m events = .ok (t, actions))
    (reset : .call .resetMcu ∈ actions) (addr : UInt32)
    : .jumpToImage addr ∉ actions := by
  induction events generalizing m actions with
  | nil =>
      obtain ⟨_, rfl⟩ := Prod.mk.inj (Except.ok.inj ran)
      cases reset
  | cons event rest ih =>
      obtain ⟨next, first, later, taken, tail, rfl⟩ := run_cons_iff.mp ran
      obtain ⟨_, _, _, leaves⟩ := mainStep_acts taken
      have single : .call .resetMcu ∈ first → .jumpToImage addr ∉ first := by
        rcases mainStep_cases taken with
          ⟨_, calls, _, _, _, _, rfl⟩ | ⟨_, rfl⟩ | ⟨_, _, _, rfl⟩ | ⟨_, _, rfl⟩
        · simp
        · simp
        · simp
        · simp
      by_cases left : next.phase = .left
      · cases rest with
        | nil =>
            obtain ⟨_, rfl⟩ := Prod.mk.inj (Except.ok.inj tail)
            rw [List.flatten_nil, List.append_nil] at reset ⊢
            exact single reset
        | cons event rest =>
            obtain ⟨_, _, _, again, _, _⟩ := run_cons_iff.mp tail
            exact ((mainStep_acts again).2.2.1 left).elim
      · have stays := not_exists.mp (mt leaves.mpr left)
        intro jump
        rcases List.mem_append.mp reset with here | behind
        · exact stays _ ⟨here, Or.inl rfl⟩
        · rcases List.mem_append.mp jump with early | late
          · exact stays _ ⟨early, Or.inr ⟨addr, rfl⟩⟩
          · exact ih tail behind late

/-- Every byte polled for on its own, with the test for the jump behind it. -/
def polled (bytes : List UInt8) : List Event := bytes.flatMap fun data => [.receive data, .test]

theorem received_polled (bytes : List UInt8) : received (polled bytes) = bytes := by
  induction bytes with
  | nil => rfl
  | cons data rest ih => exact congrArg (data :: ·) ih

/-- While no jump is asked for and no call resets, the loop takes what the parser takes, by
induction on the bytes.
-/
theorem run_polled {m : Mcu} {bytes : List UInt8} {s : State} {calls : List Call}
    (polls : m.phase = .poll) (unasked : m.jumpApp = 0)
    (parsed : run (analysisPacket ops) m.bl bytes = .ok (s, calls))
    (stays : Call.resetMcu ∉ calls)
    : run (mainStep ops c) m (polled bytes)
      = .ok ({ m with bl := s, flash := flashAfter c calls m.flash }, calls.map .call) := by
  induction bytes generalizing m calls with
  | nil =>
      obtain ⟨rfl, rfl⟩ := Prod.mk.inj (Except.ok.inj parsed)
      rfl
  | cons data rest ih =>
      obtain ⟨next, first, later, taken, tail, rfl⟩ := run_cons_iff.mp parsed
      obtain ⟨here, behind⟩ := not_or.mp (mt List.mem_append.mpr stays)
      have received : mainStep ops c m (.receive data)
          = .ok
              ({ m with bl := next, flash := flashAfter c first m.flash, phase := .test },
                first.map .call) := by
        simp only [mainStep, polls, if_true, taken, if_neg here]
      have tested : mainStep ops c
            { m with bl := next, flash := flashAfter c first m.flash, phase := .test } .test
          = .ok
              ({ m with bl := next, flash := flashAfter c first m.flash, phase := .poll },
                []) := by
        simp only [mainStep, if_true, unasked, ne_eq, not_true_eq_false, false_and, if_false]
      have later := @ih { m with bl := next, flash := flashAfter c first m.flash } later polls
        unasked tail behind
      have twice : run (mainStep ops c) m [.receive data, .test]
          = .ok
              ({ m with bl := next, flash := flashAfter c first m.flash, phase := .poll },
                first.map .call) :=
        run_cons_iff.mpr
          ⟨_, _, _, received, by rw [run_singleton, tested], (List.append_nil _).symm⟩
      rw [← polls] at twice
      rw [polled, List.flatMap_cons, List.map_append, flashAfter, List.foldl_append]
      exact run_append twice later

-----------------------------------------------------------------------------------------
-- Runs in which nothing is received
-----------------------------------------------------------------------------------------

/-- The test behind the 402nd interrupt comes, and the flash holds a valid image. -/
def Boots (ops : BlTestFuncOps) (f : Flash.State) (events : List Event) : Prop :=
  checkAppPc ops APP_ADDRESS f ≠ 0 ∧ 401 < events.count .tick ∧ events.getLast? = some .test

/-- The variables after some interrupts without a byte. -/
structure Mcu.Waited (fp : FramingPacket) (f : Flash.State) (ticks : Nat) (m : Mcu) : Prop where
  bl : m.bl = .powerOn fp
  flash : m.flash = f
  timeout : m.timeout.toNat = ticks
  few : ticks ≤ 402
  tickInt : m.tickInt = decide (ticks ≤ 401)
  jumpApp : m.jumpApp = if ticks ≤ 401 then 0 else 1

/-- An interrupt counts, and the 402nd asks for the jump and is the last one. -/
theorem sysTickHandler_waited {fp : FramingPacket} {f : Flash.State} {ticks : Nat} {m : Mcu}
    (waited : m.Waited fp f ticks) (enabled : m.tickInt = true)
    : (sysTickHandler m).Waited fp f (ticks + 1) ∧ (sysTickHandler m).phase = m.phase := by
  have few : ticks ≤ 401 := of_decide_eq_true (waited.tickInt ▸ enabled)
  have count : (m.timeout + 1).toNat = ticks + 1 := by
    rw [UInt32.toNat_add, UInt32.toNat_one, waited.timeout]
    omega
  have unconnected : blConnect m.bl = 0 := by
    rw [waited.bl]
    rfl
  have due : 400 < m.timeout ↔ ¬ ticks + 1 ≤ 401 := by
    rw [UInt32.lt_iff_toNat_lt, waited.timeout, show UInt32.toNat 400 = 400 by rfl]
    omega
  simp only [sysTickHandler, due, unconnected, if_true]
  split
  · rename_i last
    exact ⟨⟨waited.bl, waited.flash, count, by omega, (decide_eq_false last).symm,
        (if_neg last).symm⟩, rfl⟩
  · rename_i more
    have more := not_not.mp more
    refine ⟨⟨waited.bl, waited.flash, count, by omega, ?_, ?_⟩, rfl⟩
    · rw [waited.tickInt, decide_eq_true few, decide_eq_true more]
    · rw [waited.jumpApp, if_pos few, if_pos more]

/-- Whether a run boots depends on its last event and on the interrupts before it. -/
theorem boots_append_iff {f : Flash.State} {before : List Event} {event : Event}
    : Boots ops f (before ++ [event])
      ↔ event = .test ∧ 401 < before.count .tick ∧ checkAppPc ops APP_ADDRESS f ≠ 0 := by
  simp only [Boots, List.getLast?_concat, Option.some.injEq, List.count_append]
  constructor
  · rintro ⟨valid, many, rfl⟩
    exact ⟨rfl, many, valid⟩
  · rintro ⟨rfl, many, valid⟩
    exact ⟨valid, many, rfl⟩

/-- One event without a byte, by cases on it. -/
theorem silentStep {fp : FramingPacket} {f : Flash.State} {ticks : Nat} {m t : Mcu}
    {event : Event} {actions : List Action} (waited : m.Waited fp f ticks)
    (silent : event.bytes = []) (taken : mainStep ops c m event = .ok (t, actions))
    : t.Waited fp f (ticks + [event].count .tick)
      ∧ (event = .test ∧ 401 < ticks ∧ checkAppPc ops APP_ADDRESS f ≠ 0
        → t.phase = .left ∧ actions = [.jumpToImage APP_ADDRESS])
      ∧ (¬ (event = .test ∧ 401 < ticks ∧ checkAppPc ops APP_ADDRESS f ≠ 0)
        → t.phase ≠ .left ∧ actions = []) := by
  obtain rfl := waited.flash
  have unmoved (phase : Phase) : { m with phase }.Waited fp m.flash ticks :=
    ⟨waited.bl, rfl, waited.timeout, waited.few, waited.tickInt, waited.jumpApp⟩
  cases event with
  | receive data => cases silent
  | noData =>
      simp only [mainStep] at taken
      split at taken
      · obtain ⟨rfl, rfl⟩ := Prod.mk.inj (Except.ok.inj taken)
        exact ⟨unmoved .test, by simp, by simp⟩
      · cases taken
  | tick =>
      simp only [mainStep] at taken
      split at taken
      · rename_i enabled
        obtain ⟨rfl, rfl⟩ := Prod.mk.inj (Except.ok.inj taken)
        obtain ⟨ticked, phase⟩ := sysTickHandler_waited waited enabled.2
        exact ⟨ticked, by simp, fun _ => ⟨by rw [phase]; exact enabled.1, rfl⟩⟩
      · cases taken
  | test =>
      have asked : m.jumpApp ≠ 0 ↔ 401 < ticks := by
        rw [waited.jumpApp, ← Nat.not_le]
        by_cases few : ticks ≤ 401 <;> simp [few]
      simp only [mainStep, asked] at taken
      split at taken
      · split at taken
        · rename_i jumps
          obtain ⟨rfl, rfl⟩ := Prod.mk.inj (Except.ok.inj taken)
          exact ⟨unmoved .left, fun _ => ⟨rfl, rfl⟩, fun never => (never ⟨rfl, jumps⟩).elim⟩
        · rename_i stays
          obtain ⟨rfl, rfl⟩ := Prod.mk.inj (Except.ok.inj taken)
          exact ⟨unmoved .poll, fun jumps => (stays jumps.2).elim, by simp⟩
      · cases taken

/-- A run from power-on without a byte jumps to the application exactly if it boots, and does
nothing else; by induction on the events from the last one.
-/
theorem silentRun {fp : FramingPacket} {f : Flash.State} {m : Mcu} {events : List Event}
    {actions : List Action} (silent : received events = [])
    (ran : run (mainStep ops c) (.powerOn fp f) events = .ok (m, actions))
    : m.Waited fp f (events.count .tick)
      ∧ (Boots ops f events → m.phase = .left ∧ actions = [.jumpToImage APP_ADDRESS])
      ∧ (¬ Boots ops f events → m.phase ≠ .left ∧ actions = []) := by
  induction events using List.reverseRecOn generalizing m actions with
  | nil =>
      obtain ⟨rfl, rfl⟩ := Prod.mk.inj (Except.ok.inj ran)
      refine ⟨⟨rfl, rfl, rfl, Nat.zero_le _, rfl, rfl⟩, fun boots => ?_, fun _ => ⟨fun left => ?_, rfl⟩⟩
      · cases boots.2.2
      · cases left
  | append_singleton before event ih =>
      obtain ⟨middle, early, late, head, tail, rfl⟩ := run_append_iff.mp ran
      rw [received, List.flatMap_append, List.append_eq_nil_iff] at silent
      obtain ⟨quiet, last⟩ := silent
      rw [run_singleton] at tail
      obtain ⟨waited, booted, stayed⟩ := ih quiet head
      -- the last event is taken, so the loop had not been left before it
      have inside := (mainStep_acts tail).2.2.1
      obtain ⟨_, rfl⟩ := stayed fun boots => inside (booted boots).1
      rw [List.nil_append, List.count_append, boots_append_iff]
      exact silentStep waited (by rwa [List.flatMap_singleton] at last) tail

/-- The first start byte connects the host, and the loop stays in front of its test. -/
theorem firstStart_connects {fp : FramingPacket} {m t : Mcu} {actions : List Action}
    (waiting : m.bl = .powerOn fp)
    (taken : mainStep ops c m (.receive FramingPacketType.startByte) = .ok (t, actions))
    : t.bl.blVariate.appFlag ≠ 0 ∧ t.jumpApp = m.jumpApp ∧ actions = [] := by
  have accepted
      : analysisPacket ops (.powerOn fp) FramingPacketType.startByte
        = .ok
            ({ State.powerOn fp with
                fp.startByte := FramingPacketType.startByte
                blVariate.appFlag := 1
                blVariate.status := .cmd }, []) := rfl
  simp only [mainStep, waiting, accepted] at taken
  split at taken
  · obtain ⟨rfl, rfl⟩ := Prod.mk.inj (Except.ok.inj taken)
    exact ⟨(by decide : (1 : UInt8) ≠ 0), rfl, rfl⟩
  · cases taken

/-- A run whose first byte is a start byte that comes in front of the 402nd interrupt never
jumps, since a connected bootloader is not asked to.
-/
theorem earlyRun_noJump {fp : FramingPacket} {f : Flash.State} {m : Mcu}
    {quiet rest : List Event} {actions : List Action} (silent : received quiet = [])
    (early : quiet.count .tick ≤ 401)
    (ran
      : run (mainStep ops c) (.powerOn fp f)
          (quiet ++ .receive FramingPacketType.startByte :: rest)
        = .ok (m, actions))
    (addr : UInt32)
    : .jumpToImage addr ∉ actions := by
  obtain ⟨waiting, before, _, head, begun, rfl⟩ := run_append_iff.mp ran
  obtain ⟨next, first, later, taken, tail, rfl⟩ := run_cons_iff.mp begun
  obtain ⟨waited, _, stayed⟩ := silentRun silent head
  have unasked : waiting.jumpApp = 0 := by rw [waited.jumpApp, if_pos early]
  obtain ⟨_, rfl⟩ := stayed fun boots => Nat.not_lt_of_le early boots.2.1
  obtain ⟨connected, same, rfl⟩ := firstStart_connects waited.bl taken
  have quiet := run_invariant
    (fun _ _ _ _ (inv : _ ∧ _) taken => connected_step inv.1 inv.2 taken)
    ⟨connected, same.trans unasked⟩ tail
  exact fun member => quiet.2 _ member addr rfl

-----------------------------------------------------------------------------------------
-- The results about runs of the main loop
-----------------------------------------------------------------------------------------

/-- The main loop refines the parser. Every run, however interrupts and empty polls fall between
the bytes, makes the calls that the parser makes at the bytes received, does them to the flash
in order, and leaves the loop exactly at a reset or a jump, which is its last action; and what
the parser takes without a reset, the loop takes while no jump is asked for.
-/
theorem mainLoop_refines (ops : BlTestFuncOps) (c : Controller) (m : Mcu)
    : (∀ events t actions,
        m.phase ≠ .left
        → run (mainStep ops c) m events = .ok (t, actions)
        → ∃ calls,
            run (analysisPacket ops) m.bl (received events) = .ok (t.bl, calls)
            ∧ actions.filterMap Action.call? = calls
            ∧ t.flash = flashAfter c calls m.flash
            ∧ (t.phase = .left ↔ ∃ action ∈ actions, action.Leaves)
            ∧ (.call .resetMcu ∈ actions → ∀ addr, .jumpToImage addr ∉ actions))
      ∧ ∀ bytes s calls,
          m.phase = .poll
          → m.jumpApp = 0
          → run (analysisPacket ops) m.bl bytes = .ok (s, calls)
          → Call.resetMcu ∉ calls
          → ∃ events t,
              received events = bytes
              ∧ run (mainStep ops c) m events = .ok (t, calls.map .call)
              ∧ t.bl = s
              ∧ t.flash = flashAfter c calls m.flash := by
  constructor
  · intro events t actions inside ran
    obtain ⟨parsed, flash⟩ := mainRun_parses ran
    exact ⟨_, parsed, rfl, flash, mainRun_leaves inside ran, mainRun_noJump ran⟩
  · intro bytes s calls polls unasked parsed stays
    exact ⟨polled bytes, _, received_polled bytes, run_polled polls unasked parsed stays, rfl, rfl⟩

/-- Without a byte from the host, the bootloader starts the application at the first test behind
the 402nd interrupt if the reset vector in the flash lies in the application's range, and does
nothing else in any case.
-/
theorem silentBoot_iff {fp : FramingPacket} {f : Flash.State} {m : Mcu} {events : List Event}
    {actions : List Action} (silent : received events = [])
    (ran : run (mainStep ops c) (.powerOn fp f) events = .ok (m, actions))
    : (Boots ops f events → actions = [.jumpToImage APP_ADDRESS])
      ∧ (¬ Boots ops f events → actions = [])
      ∧ (m.phase = .left ↔ Boots ops f events)
      ∧ events.count .tick ≤ 402
      ∧ m.flash = f := by
  obtain ⟨waited, booted, stayed⟩ := silentRun silent ran
  refine ⟨fun boots => (booted boots).2, fun stays => (stayed stays).2, ?_, waited.few,
    waited.flash⟩
  exact ⟨fun left => by_contra fun stays => (stayed stays).1 left, fun boots => (booted boots).1⟩

/-- Interrupts bring no bytes. -/
theorem received_ticks (count : Nat) (rest : List Event)
    : received (List.replicate count .tick ++ rest) = received rest := by
  induction count with
  | zero => rfl
  | succ count ih => exact ih

/-- On the board of main.c with a valid image, the application is started. -/
theorem silentBoot_iff_validImage
    : ∃ m actions,
        run (mainStep blTestFunc ⟨2048, fun _ => 0⟩) (.powerOn .zero validImage)
            (List.replicate 401 .tick ++ [.tick, .noData, .test])
          = .ok (m, actions)
        ∧ actions = [.jumpToImage APP_ADDRESS] := by
  have ticks := run_ticks blTestFunc ⟨2048, fun _ => 0⟩ (.powerOn .zero validImage) 401
    (by decide) (by decide)
  have later : ∃ m actions,
      run (mainStep blTestFunc ⟨2048, fun _ => 0⟩)
          { Mcu.powerOn .zero validImage with timeout := 0 + UInt32.ofNat 401 }
          [.tick, .noData, .test]
        = .ok (m, actions) :=
    ⟨_, _, rfl⟩
  obtain ⟨m, actions, later⟩ := later
  have silent : received (List.replicate 401 .tick ++ [.tick, .noData, .test]) = [] :=
    received_ticks 401 _
  have ran := run_append ticks later
  have boots : Boots blTestFunc validImage
      (List.replicate 401 .tick ++ [.tick, .noData, .test]) := by
    refine ⟨by decide, ?_, List.getLast?_append_of_ne_nil _ (List.cons_ne_nil _ _)⟩
    rw [List.count_append, List.count_replicate_self]
    decide
  exact ⟨m, _, ran, (silentBoot_iff silent ran).1 boots⟩

end At32.Bootloader
