import Mathlib.Tactic.Common

/-! Programs that act on a port and look at it, run against a device behind the port, and
their pre- and postconditions under a condition on every action.
-/

namespace Port

/-- A program with actions (α), readings (ω) and a result (ρ). -/
inductive Program (α ω ρ : Type)
  | done (result : ρ)
  | act (action : α) (next : Program α ω ρ)
  | look (next : ω → Program α ω ρ)

variable {α ω ρ τ σ : Type}

namespace Program

def bind : Program α ω ρ → (ρ → Program α ω τ) → Program α ω τ
  | .done result, rest => rest result
  | .act action next, rest => .act action (next.bind rest)
  | .look next, rest => .look fun reading => (next reading).bind rest

instance : Monad (Program α ω) where
  pure := .done
  bind := .bind

/-- One action. -/
def emit (action : α) : Program α ω Unit := .act action (.done ())

/-- One reading. -/
def read : Program α ω ω := .look .done

/-- One action and a reading behind it. -/
def exchange (action : α) : Program α ω ω := .act action (.look .done)

end Program

/-- What is behind the port: how an action changes it, and what it shows. -/
structure Device (α ω σ : Type) where
  apply : σ → α → σ
  look : σ → ω

namespace Program

/-- The result of a program and the state of the device after it. -/
def run (device : Device α ω σ) : Program α ω ρ → σ → ρ × σ
  | .done result, s => (result, s)
  | .act action next, s => next.run device (device.apply s action)
  | .look next, s => (next (device.look s)).run device s

/-- Every action of the program meets the condition in the state in which it is taken. -/
def Meets (device : Device α ω σ) (condition : σ → α → Prop) : Program α ω ρ → σ → Prop
  | .done _, _ => True
  | .act action next, s =>
      condition s action ∧ next.Meets device condition (device.apply s action)
  | .look next, s => (next (device.look s)).Meets device condition s

variable {device : Device α ω σ} {condition : σ → α → Prop}

/-- A program in two parts, by induction on the first. -/
theorem run_bind (first : Program α ω ρ) (rest : ρ → Program α ω τ) (s : σ)
    : (first >>= rest).run device s
      = (rest (first.run device s).1).run device (first.run device s).2 := by
  induction first generalizing s with
  | done result => rfl
  | act action next ih => exact ih _
  | look next ih => exact ih _ _

/-- Both parts meet the condition, by induction on the first. -/
theorem meets_bind (first : Program α ω ρ) (rest : ρ → Program α ω τ) (s : σ)
    : (first >>= rest).Meets device condition s
      ↔ first.Meets device condition s
        ∧ (rest (first.run device s).1).Meets device condition (first.run device s).2 := by
  induction first generalizing s with
  | done result => exact (and_iff_right trivial).symm
  | act action next ih => exact (and_congr_right' (ih _)).trans and_assoc.symm
  | look next ih => exact ih _ _

/-- What every action keeps, and what implies the condition, lets every program meet it; by
induction on the program.
-/
theorem meets_of_invariant {inv : σ → Prop}
    (keeps : ∀ s action, inv s → condition s action ∧ inv (device.apply s action))
    (program : Program α ω ρ) {s : σ} (start : inv s)
    : program.Meets device condition s ∧ inv (program.run device s).2 := by
  induction program generalizing s with
  | done result => exact ⟨trivial, start⟩
  | act action next ih =>
      obtain ⟨met, kept⟩ := keeps s action start
      obtain ⟨rest, last⟩ := ih kept
      exact ⟨⟨met, rest⟩, last⟩
  | look next ih => exact ih _ start

end Program

-----------------------------------------------------------------------------------------
-- Pre- and postconditions
-----------------------------------------------------------------------------------------

/-- From a state of the precondition, a run whose actions meet the condition ends in the
postcondition.
-/
def Triple (device : Device α ω σ) (condition : σ → α → Prop) (pre : σ → Prop)
    (program : Program α ω ρ) (post : ρ → σ → Prop)
    : Prop :=
  ∀ s,
    pre s
    → program.Meets device condition s
    → post (program.run device s).1 (program.run device s).2

namespace Triple

variable {device : Device α ω σ} {condition : σ → α → Prop} {pre : σ → Prop}

theorem done {result : ρ} {post : ρ → σ → Prop} (ends : ∀ s, pre s → post result s)
    : Triple device condition pre (pure result) post :=
  fun s holds _ => ends s holds

theorem emit {action : α} {post : σ → Prop}
    (step : ∀ s, pre s → condition s action → post (device.apply s action))
    : Triple device condition pre (.emit action) (fun _ => post) :=
  fun s holds met => step s holds met.1

theorem bind {first : Program α ω ρ} {rest : ρ → Program α ω τ} {middle : ρ → σ → Prop}
    {post : τ → σ → Prop}
    (head : Triple device condition pre first middle)
    (tail : ∀ result, Triple device condition (middle result) (rest result) post)
    : Triple device condition pre (first >>= rest) post := by
  intro s holds met
  obtain ⟨before, after⟩ := (Program.meets_bind first rest s).mp met
  rw [Program.run_bind]
  exact tail _ _ (head s holds before) after

/-- A reading whose value the precondition settles. -/
theorem read {rest : ω → Program α ω ρ} {post : ρ → σ → Prop} {reading : ω}
    (shows : ∀ s, pre s → device.look s = reading)
    (tail : Triple device condition pre (rest reading) post)
    : Triple device condition pre (.read >>= rest) post := by
  intro s holds met
  have same : rest (device.look s) = rest reading := by rw [shows s holds]
  have ran : (Program.read >>= rest).run device s = (rest (device.look s)).run device s := rfl
  have meets : (rest (device.look s)).Meets device condition s := met
  rw [same] at ran meets
  rw [ran]
  exact tail s holds meets

theorem exchange {action : α} {post : ω → σ → Prop}
    (step
      : ∀ s,
          pre s
          → condition s action
          → post (device.look (device.apply s action)) (device.apply s action))
    : Triple device condition pre (.exchange action) post :=
  fun s holds met => step s holds met.1

/-- A part of the precondition that is not about the state. -/
theorem and_pre {fact : Prop} {program : Program α ω ρ} {post : ρ → σ → Prop}
    (given : fact → Triple device condition pre program post)
    : Triple device condition (fun s => fact ∧ pre s) program post := by
  intro s holds met
  obtain ⟨known, holds⟩ := holds
  exact given known s holds met

/-- One of several preconditions. -/
theorem exists_pre {ι : Type} {pre : ι → σ → Prop} {program : Program α ω ρ}
    {post : ρ → σ → Prop} (each : ∀ i, Triple device condition (pre i) program post)
    : Triple device condition (fun s => ∃ i, pre i s) program post := by
  intro s holds met
  obtain ⟨i, holds⟩ := holds
  exact each i s holds met

/-- A stronger precondition and a weaker postcondition. -/
theorem weaken {program : Program α ω ρ} {stronger : σ → Prop} {post weaker : ρ → σ → Prop}
    (triple : Triple device condition pre program post)
    (before : ∀ s, stronger s → pre s) (after : ∀ result s, post result s → weaker result s)
    : Triple device condition stronger program weaker :=
  fun s holds met => after _ _ (triple s (before s holds) met)

end Triple

-----------------------------------------------------------------------------------------
-- Two levels of one device
-----------------------------------------------------------------------------------------

/-- Seen through the view, one device acts and shows as another, as long as its own condition
holds, which every action keeps.
-/
structure Simulates {κ : Type} (concrete : Device α ω κ) (abstract : Device α ω σ)
    (inv : κ → Prop) (view : κ → σ)
    : Prop where
  keeps : ∀ s action, inv s → inv (concrete.apply s action)
  acts
    : ∀ s action,
        inv s
        → view (concrete.apply s action) = abstract.apply (view s) action
  shows : ∀ s, inv s → concrete.look s = abstract.look (view s)

/-- Then so does every program, by induction on it. -/
theorem Simulates.run {κ : Type} {concrete : Device α ω κ} {abstract : Device α ω σ}
    {inv : κ → Prop} {view : κ → σ} (sim : Simulates concrete abstract inv view)
    (program : Program α ω ρ) {s : κ} (start : inv s)
    : (program.run concrete s).1 = (program.run abstract (view s)).1
      ∧ view (program.run concrete s).2 = (program.run abstract (view s)).2
      ∧ inv (program.run concrete s).2 := by
  induction program generalizing s with
  | done result => exact ⟨rfl, rfl, start⟩
  | act action next ih =>
      have after := ih (sim.keeps s action start)
      rw [sim.acts s action start] at after
      exact after
  | look next ih =>
      have after := ih (concrete.look s) start
      rw [sim.shows s start] at after
      rw [Program.run, Program.run, sim.shows s start]
      exact after

end Port
