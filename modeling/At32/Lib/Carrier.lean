import At32.Lib.Port

/-! A device that is reached over a carrier, which may fail: programs that read only what an
action has just brought run over the carrier as on the device itself.
-/

namespace Port

variable {α ω ρ τ σ υ : Type}

/-- Programs that read only behind an action that brings a reading. -/
inductive Exchanging (brings : α → Prop) : Program α ω ρ → Prop
  | done (result : ρ) : Exchanging brings (.done result)
  | act {action next} (rest : Exchanging brings next) : Exchanging brings (.act action next)
  | exchange {action next} (here : brings action)
    (rest : ∀ reading, Exchanging brings (next reading))
    : Exchanging brings (.act action (.look next))

/-- How an action is carried: what it brings back and what it leaves, if it does not fail. -/
abbrev Carrier (α ω υ : Type) := υ → α → Option (Option ω × υ)

/-- The result of a program over a carrier, for the reading brought last, and what it leaves. -/
def Program.runOver (carrier : Carrier α ω υ)
    : Program α ω ρ → Option ω → υ → Option (ρ × υ)
  | .done result, _, s => some (result, s)
  | .act action next, _, s =>
      match carrier s action with
      | none => none
      | some (reading, s) => next.runOver carrier reading s
  | .look _, none, _ => none
  | .look next, some reading, s => (next reading).runOver carrier (some reading) s

/-- The carrier takes every action to the device behind it, and stays ready. -/
def Carries (carrier : Carrier α ω υ) (device : Device α ω σ) (brings : α → Prop)
    (ready : υ → Prop) (behind : υ → σ)
    : Prop :=
  ∀ s action,
    ready s
    → ∃ reading next,
        carrier s action = some (reading, next)
        ∧ ready next
        ∧ behind next = device.apply (behind s) action
        ∧ (brings action → reading = some (device.look (behind next)))

/-- Programs one after the other, by induction on the first. -/
theorem Exchanging.bind {brings : α → Prop} {program : Program α ω ρ} {rest : ρ → Program α ω τ}
    (first : Exchanging brings program) (later : ∀ result, Exchanging brings (rest result))
    : Exchanging brings (program >>= rest) := by
  induction first with
  | done result => exact later result
  | act _ ih => exact .act ih
  | exchange here _ ih => exact .exchange here ih

/-- Over the carrier a program has the result that it has on the device, and leaves the device
alike; by induction on the program.
-/
theorem Exchanging.runOver {carrier : Carrier α ω υ} {device : Device α ω σ} {brings : α → Prop}
    {ready : υ → Prop} {behind : υ → σ}
    (carries : Carries carrier device brings ready behind) {program : Program α ω ρ}
    (exchanging : Exchanging brings program) (last : Option ω) {s : υ} (start : ready s)
    : ∃ t,
        program.runOver carrier last s = some ((program.run device (behind s)).1, t)
        ∧ ready t
        ∧ behind t = (program.run device (behind s)).2 := by
  induction exchanging generalizing last s with
  | done result => exact ⟨s, rfl, start, rfl⟩
  | @act action next _ ih =>
      obtain ⟨reading, middle, carried, kept, same, _⟩ := carries s action start
      obtain ⟨t, ran, kept, left⟩ := ih reading kept
      rw [same] at ran left
      refine ⟨t, ?_, kept, left⟩
      rw [Program.runOver, carried]
      exact ran
  | @exchange action next here _ ih =>
      obtain ⟨reading, middle, carried, kept, same, brought⟩ := carries s action start
      obtain rfl := brought here
      obtain ⟨t, ran, kept, left⟩ :=
        ih (device.look (behind middle)) (some (device.look (behind middle))) kept
      rw [same] at ran left carried
      refine ⟨t, ?_, kept, left⟩
      rw [Program.runOver, carried]
      exact ran

end Port
