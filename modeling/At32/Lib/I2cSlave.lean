import At32.Lib.I2c

/-! A slave made of a machine that takes the events of the bus: it watches the lines itself
and puts a new level on SDA as soon as SCL is low. It is ideal in every run.
-/

namespace I2c

/-- Two observers that differ at most in SDA while SCL is low. -/
structure Lines.Agree (l m : Lines) : Prop where
  scl : l.scl = m.scl
  sda : l.scl = true → l.sda = m.sda
  sampled : l.sampled = m.sampled

theorem Lines.Agree.refl (l : Lines) : l.Agree l :=
  { scl := rfl, sda := fun _ => rfl, sampled := rfl }

theorem Lines.Agree.symm {l m : Lines} (agree : l.Agree m) : m.Agree l where
  scl := agree.scl.symm
  sda high := (agree.sda (agree.scl.trans high)).symm
  sampled := agree.sampled.symm

theorem Lines.Agree.trans {l m n : Lines} (first : l.Agree m) (second : m.Agree n)
    : l.Agree n where
  scl := first.scl.trans second.scl
  sda high := (first.sda high).trans (second.sda (first.scl.symm.trans high))
  sampled := first.sampled.trans second.sampled

/-- Observers that agree decode the same, by cases on the levels of SCL. -/
theorem Lines.Agree.observe {l m : Lines} (agree : l.Agree m) (scl sda : Bool)
    : (l.observe scl sda).2 = (m.observe scl sda).2
      ∧ (l.observe scl sda).1.Agree (m.observe scl sda).1 := by
  obtain ⟨before, held, bit⟩ := l
  obtain ⟨same, equal, other⟩ := m
  obtain ⟨rfl, sdas, rfl⟩ := agree
  cases before with
  | false =>
      cases scl with
      | false => exact ⟨rfl, { scl := rfl, sda := fun _ => rfl, sampled := rfl }⟩
      | true => exact ⟨rfl, .refl _⟩
  | true =>
      obtain rfl := sdas rfl
      exact ⟨rfl, .refl _⟩

/-- A second look is no event if SDA is as it was while SCL is high; by cases on the levels.
-/
theorem Lines.observe_again (l : Lines) (scl sda later : Bool)
    (same : scl = true → later = sda)
    : ((l.observe scl sda).1.observe scl later).2 = none
      ∧ ((l.observe scl sda).1.observe scl later).1.Agree (l.observe scl sda).1
      ∧ ((l.observe scl sda).1.observe scl later).1.scl = scl := by
  cases scl with
  | false =>
      obtain ⟨before, held, bit⟩ := l
      cases before with
      | false => exact ⟨rfl, { scl := rfl, sda := (nomatch ·), sampled := rfl }, rfl⟩
      | true => exact ⟨rfl, { scl := rfl, sda := (nomatch ·), sampled := rfl }, rfl⟩
  | true =>
      obtain rfl := same rfl
      obtain ⟨high, held⟩ := l.observe_high later
      rw [Lines.observe_same high held]
      exact ⟨rfl, .refl _, high⟩

variable {κ : Type}

/-- The machine with the lines that it has seen and the level that it puts on SDA. -/
structure Prompt (κ : Type) where
  lines : Lines
  chip : κ
  out : Bool

variable (next : κ → Event → κ) (level : κ → Bool) {w : Wiring}

def prompt : Slave (Prompt κ) where
  level := Prompt.out
  react d scl sda :=
    let (lines, event) := d.lines.observe scl sda
    let chip := event.toList.foldl next d.chip
    { lines := lines, chip := chip, out := if scl then d.out else level chip }

/-- The machine has taken the events on the bus from the state (c) on, and its level is on
SDA while SCL is low.
-/
structure Attached (c : κ) (s : Bus (Prompt κ)) : Prop where
  chip : s.slave.chip = s.events.foldl next c
  lines : s.slave.lines.Agree s.lines
  scl : s.lines.scl = s.pins.scl
  out : s.pins.scl = false → s.slave.out = level s.slave.chip

variable {next level}

/-- The level presented after these events from the state (c) on. -/
def presented (next : κ → Event → κ) (level : κ → Bool) (c : κ) (events : List Event) : Bool :=
  level (events.foldl next c)

/-- What the machine presents from a list of events on; by induction on the bits. -/
theorem driven_presented (c : κ) (count : Nat) (events : List Event)
    : driven (presented next level c) count events
      = driven (presented next level (events.foldl next c)) count [] := by
  induction count generalizing c events with
  | zero => rfl
  | succ count ih =>
      have here : presented next level c events
          = presented next level (events.foldl next c) [] := rfl
      rw [driven, driven, ih, ih (events.foldl next c), here, List.foldl_append]
      rfl

/-- Every tick is ideal and keeps the machine attached. -/
theorem Attached.tick {c : κ} {s : Bus (Prompt κ)} (attached : Attached next level c s)
    (action : Action)
    : IdealTick w (prompt next level) (presented next level c) s action
      ∧ Attached next level c (s.tick w (prompt next level) action) := by
  obtain ⟨chip, agree, scl, out⟩ := attached
  -- the look of the machine, and the two looks of the observer
  obtain ⟨event, seen⟩ := agree.observe (s.pins.set action).scl
    (s.sdaAfter w (prompt next level) action)
  have steady : (s.pins.set action).scl = true
      → (s.tick w (prompt next level) action).slave.out = s.slave.out :=
    fun high => if_pos high
  obtain ⟨quiet, again, last⟩ := s.lines.observe_again (s.pins.set action).scl
    (s.sdaAfter w (prompt next level) action)
    (w.level (s.pins.set action).out (s.pins.set action).latch
      (s.tick w (prompt next level) action).slave.out)
    (fun high => by
      rw [steady high]
      rfl)
  have taken : (s.tick w (prompt next level) action).slave.chip
      = (s.lines.observe (s.pins.set action).scl
          (s.sdaAfter w (prompt next level) action)).2.toList.foldl next s.slave.chip := by
    rw [← event]
    rfl
  have events : (s.tick w (prompt next level) action).events
      = s.events
        ++ (s.lines.observe (s.pins.set action).scl
            (s.sdaAfter w (prompt next level) action)).2.toList := by
    refine Eq.trans ?_ (List.append_nil _)
    exact congrArg (_ ++ ·.toList) quiet
  constructor
  · refine { steady := steady, ready := fun low _ => ?_ }
    exact (out low).trans (congrArg level chip)
  · refine { chip := ?_, lines := seen.trans again.symm, scl := last, out := ?_ }
    · rw [taken, events, List.foldl_append, chip]
    · intro low
      exact if_neg fun high => Bool.false_ne_true (low.symm.trans high)

/-- So every run is. -/
theorem Attached.meets {c : κ} {s : Bus (Prompt κ)} (attached : Attached next level c s)
    {ρ : Type} (program : Port.Program Action Bool ρ)
    : program.Meets (port w (prompt next level))
          (IdealTick w (prompt next level) (presented next level c)) s
      ∧ Attached next level c (program.run (port w (prompt next level)) s).2 :=
  Port.Program.meets_of_invariant (fun _ action here => here.tick action) program attached

/-- On an idle bus a machine that has seen what is on the lines is attached from its own state on.
-/
theorem Attached.of_idle {s : Bus (Prompt κ)} (idle : s.Idle w (prompt next level))
    (lines : s.slave.lines.Agree s.lines)
    : Attached next level s.slave.chip s.fresh := by
  obtain ⟨sampled, out, here⟩ := idle
  have pins : s.pins.scl = true := by rw [here.pins]
  have high : s.lines.scl = true := by rw [here.lines]
  refine { chip := rfl, lines := lines, scl := high.trans pins.symm, out := ?_ }
  intro low
  exact absurd (low.symm.trans pins) Bool.false_ne_true

-----------------------------------------------------------------------------------------
-- Machines that keep to the protocol
-----------------------------------------------------------------------------------------

/-- A machine that follows the protocol under an address and puts on SDA what its turn asks for.
-/
structure Peer (κ : Type) (address : List Bool) where
  next : κ → Event → κ
  level : κ → Bool
  phase : κ → Phase
  follows : ∀ c event, phase (next c event) = (phase c).next address event
  drives : ∀ c required, (phase c).required = some required → level c = required

namespace Peer

variable {address : List Bool} (peer : Peer κ address)

/-- The machine as a slave. -/
abbrev slave : Slave (Prompt κ) := prompt peer.next peer.level

/-- The machine has seen what is on the lines and is in no frame. -/
structure Standby (s : Bus (Prompt κ)) : Prop where
  phase : peer.phase s.slave.chip = .idle
  lines : s.slave.lines.Agree s.lines

/-- It is in the phase of the events that it has taken, by induction on them. -/
theorem phase_foldl (c : κ) (events : List Event)
    : peer.phase (events.foldl peer.next c)
      = events.foldl (Phase.next address) (peer.phase c) := by
  induction events generalizing c with
  | nil => rfl
  | cons event rest ih =>
      rw [List.foldl_cons, List.foldl_cons, ih, peer.follows]

theorem obeys {c : κ} (standby : peer.phase c = .idle)
    : Obeys address (presented peer.next peer.level c) := by
  intro events required asks
  refine peer.drives _ required ?_
  rw [peer.phase_foldl, standby]
  exact asks

end Peer

end I2c
