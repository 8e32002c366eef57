import Mathlib.Data.List.Forall2
import Mathlib.Data.List.Induction
import Mathlib.Tactic.Common

/-! Machines fed one input at a time, which answer each input with a list of outputs or
stop at a fault. A whole block of inputs fed to a machine is again such a step.
-/

namespace Transducer

variable {σ ι ω ε β : Type*}

/-- The outputs of each input in turn, and the state after the last one. -/
def trace (step : σ → ι → Except ε (σ × List ω))
    : σ → List ι → Except ε (σ × List (List ω))
  | state, [] => .ok (state, [])
  | state, input :: rest =>
      match step state input with
      | .error fault => .error fault
      | .ok (next, outputs) =>
          match trace step next rest with
          | .error fault => .error fault
          | .ok (last, later) => .ok (last, outputs :: later)

/-- The outputs of a run as one list; (run step) is itself a step fed with blocks. -/
def run (step : σ → ι → Except ε (σ × List ω)) (state : σ) (inputs : List ι)
    : Except ε (σ × List ω) :=
  match trace step state inputs with
  | .error fault => .error fault
  | .ok (last, outputs) => .ok (last, outputs.flatten)

variable {step : σ → ι → Except ε (σ × List ω)}

@[simp] theorem trace_nil (state : σ) : trace step state [] = .ok (state, []) := rfl

@[simp] theorem run_nil (state : σ) : run step state [] = .ok (state, []) := rfl

/-- A trace succeeds exactly when its first step and the trace of the rest do. -/
theorem trace_cons_iff {state last : σ} {input : ι} {rest : List ι} {outputs}
    : trace step state (input :: rest) = .ok (last, outputs)
      ↔ ∃ next first later,
          step state input = .ok (next, first)
          ∧ trace step next rest = .ok (last, later)
          ∧ outputs = first :: later := by
  cases head : step state input with
  | error fault => simp [trace, head]
  | ok result =>
      obtain ⟨next, first⟩ := result
      cases tail : trace step next rest with
      | error fault =>
          simp only [trace, head, tail, reduceCtorEq, Except.ok.injEq, Prod.mk.injEq, false_iff]
          intro parts
          obtain ⟨_, _, _, ⟨rfl, rfl⟩, impossible, _⟩ := parts
          simp [tail] at impossible
      | ok result =>
          obtain ⟨final, later⟩ := result
          simp only [trace, head, tail, Except.ok.injEq, Prod.mk.injEq]
          constructor
          · intro same
            obtain ⟨rfl, rfl⟩ := same
            exact ⟨next, first, later, ⟨rfl, rfl⟩, tail, rfl⟩
          · intro parts
            obtain ⟨_, _, _, ⟨rfl, rfl⟩, same, rfl⟩ := parts
            rw [tail] at same
            simpa using same

/-- A run succeeds exactly when its trace does, with the outputs concatenated. -/
theorem run_iff {state last : σ} {inputs : List ι} {outputs : List ω}
    : run step state inputs = .ok (last, outputs)
      ↔ ∃ answers, trace step state inputs = .ok (last, answers)
          ∧ outputs = answers.flatten := by
  cases whole : trace step state inputs with
  | error fault => simp [run, whole]
  | ok result =>
      obtain ⟨final, answers⟩ := result
      simp only [run, whole, Except.ok.injEq, Prod.mk.injEq]
      constructor
      · intro same
        obtain ⟨rfl, rfl⟩ := same
        exact ⟨answers, ⟨rfl, rfl⟩, rfl⟩
      · intro parts
        obtain ⟨_, ⟨rfl, rfl⟩, rfl⟩ := parts
        exact ⟨rfl, rfl⟩

/-- A run succeeds exactly when its first step and the run of the rest do. -/
theorem run_cons_iff {state last : σ} {input : ι} {rest : List ι} {outputs : List ω}
    : run step state (input :: rest) = .ok (last, outputs)
      ↔ ∃ next first later,
          step state input = .ok (next, first)
          ∧ run step next rest = .ok (last, later)
          ∧ outputs = first ++ later := by
  simp only [run_iff, trace_cons_iff]
  constructor
  · intro parts
    obtain ⟨_, ⟨next, first, later, head, tail, rfl⟩, rfl⟩ := parts
    exact ⟨next, first, later.flatten, head, ⟨later, tail, rfl⟩, by simp⟩
  · intro parts
    obtain ⟨next, first, _, head, ⟨later, tail, rfl⟩, rfl⟩ := parts
    exact ⟨first :: later, ⟨next, first, later, head, tail, rfl⟩, by simp⟩

/-- A successful step without outputs leaves the run to the remaining inputs. -/
theorem run_cons_silent {state next : σ} {input : ι} {rest : List ι}
    (head : step state input = .ok (next, []))
    : run step state (input :: rest) = run step next rest := by
  cases tail : trace step next rest with
  | error fault => simp [run, trace, head, tail]
  | ok result => simp [run, trace, head, tail]

@[simp] theorem run_singleton (state : σ) (input : ι)
    : run step state [input] = step state input := by
  unfold run trace
  split <;> rename_i result same
  · split at same
    · simp_all
    · simp at same
  · split at same
    · simp at same
    · simp only [trace_nil, Except.ok.injEq, Prod.mk.injEq] at same
      obtain ⟨rfl, rfl⟩ := same
      simp_all

-----------------------------------------------------------------------------------------
-- Inputs taken in parts
-----------------------------------------------------------------------------------------

/-- A run over a concatenation is a run over the first part and one over the second. -/
theorem run_append_iff {state last : σ} {left right : List ι} {outputs : List ω}
    : run step state (left ++ right) = .ok (last, outputs)
      ↔ ∃ middle first later,
          run step state left = .ok (middle, first)
          ∧ run step middle right = .ok (last, later)
          ∧ outputs = first ++ later := by
  induction left generalizing state outputs with
  | nil => simp
  | cons input rest ih =>
      simp only [List.cons_append, run_cons_iff, ih]
      constructor
      · intro parts
        obtain ⟨next, first, _, head, ⟨middle, second, later, left, right, rfl⟩, rfl⟩ := parts
        exact ⟨middle, first ++ second, later, ⟨next, first, second, head, left, rfl⟩,
          right, by simp⟩
      · intro parts
        obtain ⟨middle, _, later, ⟨next, first, second, head, left, rfl⟩, right, rfl⟩ := parts
        exact ⟨next, first, second ++ later, head, ⟨middle, second, later, left, right, rfl⟩,
          by simp⟩

/-- Two runs in succession are one run over the concatenated inputs. -/
theorem run_append {state middle last : σ} {left right : List ι} {first later : List ω}
    (head : run step state left = .ok (middle, first))
    (tail : run step middle right = .ok (last, later))
    : run step state (left ++ right) = .ok (last, first ++ later) :=
  run_append_iff.mpr ⟨middle, first, later, head, tail, rfl⟩

/-- Inputs without outputs leave the run to what comes behind them, by induction on them. -/
theorem run_append_silent {state middle : σ} {left right : List ι}
    (head : run step state left = .ok (middle, []))
    : run step state (left ++ right) = run step middle right := by
  induction left generalizing state with
  | nil =>
      obtain ⟨rfl, _⟩ := Prod.mk.inj (Except.ok.inj head)
      rfl
  | cons input rest ih =>
      obtain ⟨next, first, later, taken, tail, silent⟩ := run_cons_iff.mp head
      obtain ⟨rfl, rfl⟩ := List.append_eq_nil_iff.mp silent.symm
      rw [List.cons_append, run_cons_silent taken, ih tail]

/-- Two traces in succession are one trace over the concatenated inputs. -/
theorem trace_append {state middle last : σ} {left right : List ι}
    {first later : List (List ω)}
    (head : trace step state left = .ok (middle, first))
    (tail : trace step middle right = .ok (last, later))
    : trace step state (left ++ right) = .ok (last, first ++ later) := by
  induction left generalizing state first with
  | nil =>
      obtain ⟨rfl, rfl⟩ := Prod.mk.inj (Except.ok.inj head)
      exact tail
  | cons input rest ih =>
      obtain ⟨next, outputs, early, taken, fed, rfl⟩ := trace_cons_iff.mp head
      exact trace_cons_iff.mpr ⟨next, outputs, early ++ later, taken, ih fed, rfl⟩

/-- A trace of one input is its step. -/
theorem trace_singleton {state next : σ} {input : ι} {outputs : List ω}
    (taken : step state input = .ok (next, outputs))
    : trace step state [input] = .ok (next, [outputs]) :=
  trace_cons_iff.mpr ⟨next, outputs, [], taken, rfl, rfl⟩

/-- Feeding blocks one after another is feeding their concatenation. -/
theorem run_flatten {state last : σ} {blocks : List (List ι)} {answers : List (List ω)}
    (blockwise : trace (run step) state blocks = .ok (last, answers))
    : run step state blocks.flatten = .ok (last, answers.flatten) := by
  induction blocks generalizing state answers with
  | nil =>
      simp only [trace_nil, Except.ok.injEq, Prod.mk.injEq] at blockwise
      obtain ⟨rfl, rfl⟩ := blockwise
      rfl
  | cons block rest ih =>
      obtain ⟨next, first, later, head, tail, rfl⟩ := trace_cons_iff.mp blockwise
      exact run_append head (ih tail)

/-- Blocks that each take a home state to a home state are answered one by one, whatever
the earlier ones left behind; by induction on the blocks.
-/
theorem trace_blocks {bytes : β → List ι} {home : σ → Prop} {answers : β → List ω → Prop}
    (block
      : ∀ state item,
          home state
          → ∃ next outputs,
              run step state (bytes item) = .ok (next, outputs)
              ∧ home next
              ∧ answers item outputs)
    {state : σ} (start : home state) (items : List β)
    : ∃ last outputs,
        trace (run step) state (items.map bytes) = .ok (last, outputs)
        ∧ home last
        ∧ List.Forall₂ answers items outputs := by
  induction items generalizing state with
  | nil => exact ⟨state, [], rfl, start, .nil⟩
  | cons item rest ih =>
      obtain ⟨next, first, fed, homeNext, answered⟩ := block state item start
      obtain ⟨last, later, tail, homeLast, matched⟩ := ih homeNext
      exact ⟨last, first :: later, trace_cons_iff.mpr ⟨next, first, later, fed, tail, rfl⟩,
        homeLast, .cons answered matched⟩

-----------------------------------------------------------------------------------------
-- Conditions on the steps and properties of the states passed
-----------------------------------------------------------------------------------------

/-- Every step that the machine takes meets a condition on the state before it and its
input.
-/
def StepsMeet (step : σ → ι → Except ε (σ × List ω)) (condition : σ → ι → Prop)
    : σ → List ι → Prop
  | _, [] => True
  | state, input :: rest =>
      condition state input
      ∧ ∀ next outputs,
          step state input = .ok (next, outputs) → StepsMeet step condition next rest

/-- The condition is decided along the run. -/
instance decideStepsMeet (step : σ → ι → Except ε (σ × List ω)) (condition : σ → ι → Prop)
    [∀ state input, Decidable (condition state input)]
    : (state : σ) → (inputs : List ι) → Decidable (StepsMeet step condition state inputs)
  | _, [] => isTrue trivial
  | state, input :: rest =>
      match taken : step state input with
      | .ok (next, _) =>
          have : Decidable (StepsMeet step condition next rest) :=
            decideStepsMeet step condition next rest
          decidable_of_iff (condition state input ∧ StepsMeet step condition next rest) (by
            simp [StepsMeet, taken])
      | .error _ => decidable_of_iff (condition state input) (by simp [StepsMeet, taken])

/-- The machine takes every step, and the property holds in every state it passes. -/
def Always (step : σ → ι → Except ε (σ × List ω)) (property : σ → Prop)
    : σ → List ι → Prop
  | state, [] => property state
  | state, input :: rest =>
      property state
      ∧ ∃ next outputs,
          step state input = .ok (next, outputs) ∧ Always step property next rest

/-- Always is about the state after each part of the inputs. -/
theorem always_iff_prefixes {property : σ → Prop} {state : σ} {inputs : List ι}
    : Always step property state inputs
      ↔ ∀ start rest,
          inputs = start ++ rest
          → ∃ next outputs, run step state start = .ok (next, outputs) ∧ property next := by
  induction inputs generalizing state with
  | nil =>
      constructor
      · intro holds start rest split
        obtain ⟨rfl, rfl⟩ := List.nil_eq_append_iff.mp split
        exact ⟨state, [], rfl, holds⟩
      · intro every
        obtain ⟨next, outputs, fed, holds⟩ := every [] [] rfl
        simp only [run_nil, Except.ok.injEq, Prod.mk.injEq] at fed
        rwa [fed.1]
  | cons input inputs ih =>
      constructor
      · intro holds start rest split
        obtain ⟨here, next, first, taken, later⟩ := holds
        cases start with
        | nil => exact ⟨state, [], rfl, here⟩
        | cons head start =>
            obtain ⟨rfl, same⟩ := List.cons.inj split
            obtain ⟨last, outputs, fed, final⟩ := ih.mp later start rest same
            exact ⟨last, first ++ outputs, run_cons_iff.mpr ⟨_, _, _, taken, fed, rfl⟩, final⟩
      · intro every
        have here : property state := by
          obtain ⟨next, outputs, fed, holds⟩ := every [] (input :: inputs) rfl
          simp only [run_nil, Except.ok.injEq, Prod.mk.injEq] at fed
          rwa [fed.1]
        obtain ⟨next, outputs, taken, _⟩ := every [input] inputs rfl
        rw [run_singleton] at taken
        refine ⟨here, next, outputs, taken, ih.mpr fun start rest split => ?_⟩
        obtain ⟨last, all, fed, final⟩ := every (input :: start) rest (by rw [split]; rfl)
        obtain ⟨middle, first, later, head, tail, _⟩ := run_cons_iff.mp fed
        rw [taken] at head
        obtain ⟨rfl, rfl⟩ := Prod.mk.inj (Except.ok.inj head)
        exact ⟨last, later, tail, final⟩

/-- Where a step succeeds and keeps a property exactly under a condition, the property
always holds exactly when every step meets the condition; by induction on the inputs.
-/
theorem always_iff_stepsMeet {property inv : σ → Prop} {condition : σ → ι → Prop}
    (exact
      : ∀ state input,
          inv state
          → property state
          → (condition state input
            ↔ ∃ next outputs, step state input = .ok (next, outputs) ∧ property next))
    (kept
      : ∀ state input next outputs,
          inv state
          → property state
          → step state input = .ok (next, outputs)
          → inv next)
    {state : σ} (invStart : inv state) (start : property state) (inputs : List ι)
    : Always step property state inputs ↔ StepsMeet step condition state inputs := by
  induction inputs generalizing state with
  | nil => exact ⟨fun _ => trivial, fun _ => start⟩
  | cons input rest ih =>
      constructor
      · intro parts
        obtain ⟨_, next, outputs, taken, later⟩ := parts
        have next_holds : property next := by
          cases rest with
          | nil => exact later
          | cons _ _ => exact later.1
        refine ⟨(exact state input invStart start).mpr ⟨next, outputs, taken, next_holds⟩, ?_⟩
        intro other outputs' same
        rw [taken] at same
        obtain ⟨rfl, rfl⟩ := Prod.mk.inj (Except.ok.inj same)
        exact (ih (kept _ _ _ _ invStart start taken) next_holds).mp later
      · intro parts
        obtain ⟨met, later⟩ := parts
        obtain ⟨next, outputs, taken, holds⟩ := (exact state input invStart start).mp met
        exact ⟨start, next, outputs, taken,
          (ih (kept _ _ _ _ invStart start taken) holds).mpr (later next outputs taken)⟩

/-- Where the outputs of a step have a property exactly under a condition, all outputs of
a run have it exactly when every step meets the condition; by induction on the inputs.
-/
theorem outputs_iff_stepsMeet {property : ω → Prop} {condition : σ → ι → Prop}
    (exact
      : ∀ state input,
          condition state input
          ↔ ∀ next outputs,
              step state input = .ok (next, outputs) → ∀ output ∈ outputs, property output)
    (state : σ) (inputs : List ι)
    : (∀ start rest,
        inputs = start ++ rest
        → ∀ next outputs,
            run step state start = .ok (next, outputs) → ∀ output ∈ outputs, property output)
      ↔ StepsMeet step condition state inputs := by
  induction inputs generalizing state with
  | nil =>
      refine ⟨fun _ => trivial, fun _ start rest split next outputs fed => ?_⟩
      obtain ⟨rfl, rfl⟩ := List.nil_eq_append_iff.mp split
      obtain ⟨rfl, rfl⟩ := Prod.mk.inj (Except.ok.inj fed)
      exact fun _ member => (List.not_mem_nil member).elim
  | cons input inputs ih =>
      constructor
      · intro every
        refine ⟨(exact state input).mpr fun next outputs taken => ?_, ?_⟩
        · exact every [input] inputs rfl next outputs (by rw [run_singleton, taken])
        · intro next outputs taken
          refine (ih next).mp fun start rest split last later fed output member => ?_
          exact every (input :: start) rest (by rw [split]; rfl) last (outputs ++ later)
            (run_cons_iff.mpr ⟨_, _, _, taken, fed, rfl⟩) output
            (List.mem_append_right outputs member)
      · rintro ⟨met, later⟩ start rest split last outputs fed
        cases start with
        | nil =>
            obtain ⟨rfl, rfl⟩ := Prod.mk.inj (Except.ok.inj fed)
            exact fun _ member => (List.not_mem_nil member).elim
        | cons head start =>
            obtain ⟨rfl, same⟩ := List.cons.inj split
            obtain ⟨next, first, second, taken, tail, rfl⟩ := run_cons_iff.mp fed
            intro output member
            rcases List.mem_append.mp member with early | late
            · exact (exact state _).mp met next first taken output early
            · exact (ih next).mpr (later next first taken) start rest same last second tail
                output late

/-- An invariant whose steps have outputs of a kind: a run keeps it and so are all its
outputs.
-/
theorem run_invariant {inv : σ → Prop} {property : ω → Prop}
    (keeps
      : ∀ state input next outputs,
          inv state
          → step state input = .ok (next, outputs)
          → inv next ∧ ∀ output ∈ outputs, property output)
    {state last : σ} {inputs : List ι} {outputs : List ω} (start : inv state)
    (ran : run step state inputs = .ok (last, outputs))
    : inv last ∧ ∀ output ∈ outputs, property output := by
  induction inputs generalizing state outputs with
  | nil =>
      obtain ⟨rfl, rfl⟩ := Prod.mk.inj (Except.ok.inj ran)
      exact ⟨start, fun _ member => (List.not_mem_nil member).elim⟩
  | cons input rest ih =>
      obtain ⟨next, first, later, taken, tail, rfl⟩ := run_cons_iff.mp ran
      obtain ⟨kept, held⟩ := keeps state input next first start taken
      obtain ⟨final, holds⟩ := ih kept tail
      refine ⟨final, fun output member => ?_⟩
      rcases List.mem_append.mp member with early | late
      · exact held output early
      · exact holds output late

/-- An invariant kept by the steps that meet a condition holds after any part of a run
whose steps all meet it.
-/
theorem stepsMeet_invariant {inv : σ → Prop} {condition : σ → ι → Prop}
    (keeps
      : ∀ state input next outputs,
          inv state
          → condition state input
          → step state input = .ok (next, outputs)
          → inv next)
    {state last : σ} {before after : List ι} {outputs : List ω} (start : inv state)
    (met : StepsMeet step condition state (before ++ after))
    (ran : run step state before = .ok (last, outputs))
    : inv last := by
  induction before generalizing state outputs with
  | nil =>
      obtain ⟨rfl, rfl⟩ := Prod.mk.inj (Except.ok.inj ran)
      exact start
  | cons input rest ih =>
      obtain ⟨next, first, later, taken, tail, rfl⟩ := run_cons_iff.mp ran
      obtain ⟨here, rest⟩ := met
      exact ih (keeps state input next first start here taken) (rest next first taken) tail

/-- The steps meet a condition exactly when it holds wherever a part of the inputs leads, for
the input behind that part.
-/
theorem stepsMeet_iff_prefixes {condition : σ → ι → Prop} {state : σ} {inputs : List ι}
    : StepsMeet step condition state inputs
      ↔ ∀ start input rest,
          inputs = start ++ input :: rest
          → ∀ next outputs,
              run step state start = .ok (next, outputs) → condition next input := by
  induction inputs generalizing state with
  | nil =>
      refine ⟨fun _ start input rest split => ?_, fun _ => trivial⟩
      cases start <;> cases split
  | cons head inputs ih =>
      constructor
      · intro met start input rest split next outputs fed
        cases start with
        | nil =>
            obtain ⟨rfl, _⟩ := List.cons.inj split
            obtain ⟨rfl, _⟩ := Prod.mk.inj (Except.ok.inj fed)
            exact met.1
        | cons first start =>
            obtain ⟨rfl, same⟩ := List.cons.inj split
            obtain ⟨middle, early, late, taken, tail, _⟩ := run_cons_iff.mp fed
            exact ih.mp (met.2 middle early taken) start input rest same next late tail
      · intro every
        refine ⟨every [] head inputs rfl state [] rfl, fun middle early taken => ?_⟩
        refine ih.mpr fun start input rest split next late tail => ?_
        exact every (head :: start) input rest (by rw [split]; rfl) next (early ++ late)
          (run_cons_iff.mpr ⟨_, _, _, taken, tail, rfl⟩)

/-- An invariant about the outputs so far and the state, kept by the steps that meet a
condition.
-/
theorem stepsMeet_outputs {inv : List ω → σ → Prop} {condition : σ → ι → Prop}
    (keeps
      : ∀ sent state input next outputs,
          inv sent state
          → condition state input
          → step state input = .ok (next, outputs)
          → inv (sent ++ outputs) next)
    {state last : σ} {sent outputs : List ω} {before after : List ι} (start : inv sent state)
    (met : StepsMeet step condition state (before ++ after))
    (ran : run step state before = .ok (last, outputs))
    : inv (sent ++ outputs) last := by
  induction before generalizing state sent outputs with
  | nil =>
      obtain ⟨rfl, rfl⟩ := Prod.mk.inj (Except.ok.inj ran)
      rwa [List.flatten_nil, List.append_nil]
  | cons input rest ih =>
      obtain ⟨next, first, later, taken, tail, rfl⟩ := run_cons_iff.mp ran
      obtain ⟨here, rest⟩ := met
      rw [← List.append_assoc]
      exact ih (keeps sent state input next first start here taken) (rest next first taken) tail

/-- An invariant about the outputs so far and the state, kept by every step. -/
theorem run_outputs {inv : List ω → σ → Prop}
    (keeps
      : ∀ sent state input next outputs,
          inv sent state
          → step state input = .ok (next, outputs)
          → inv (sent ++ outputs) next)
    {state last : σ} {sent outputs : List ω} {inputs : List ι} (start : inv sent state)
    (ran : run step state inputs = .ok (last, outputs))
    : inv (sent ++ outputs) last := by
  have met : StepsMeet step (fun _ _ => True) state (inputs ++ []) :=
    stepsMeet_iff_prefixes.mpr fun _ _ _ _ _ _ _ => trivial
  exact stepsMeet_outputs
    (fun sent state input next outputs kept _ taken =>
      keeps sent state input next outputs kept taken)
    start met ran

/-- Where a step keeps a property of all outputs so far exactly under a condition on them, its
state and its input, the outputs always have the property exactly when the condition holds
before every input; by induction on the part of the inputs taken.
-/
theorem outputs_iff_prefixes {inv : List ω → σ → Prop} {property : List ω → Prop}
    {condition : List ω → σ → ι → Prop}
    (keeps
      : ∀ sent state input next outputs,
          inv sent state
          → step state input = .ok (next, outputs)
          → inv (sent ++ outputs) next)
    (exact
      : ∀ sent state input,
          inv sent state
          → property sent
          → (condition sent state input
            ↔ ∀ next outputs,
                step state input = .ok (next, outputs) → property (sent ++ outputs)))
    {state : σ} (first : inv [] state) (empty : property []) (inputs : List ι)
    : (∀ start rest,
        inputs = start ++ rest
        → ∀ next outputs, run step state start = .ok (next, outputs) → property outputs)
      ↔ ∀ start input rest,
          inputs = start ++ input :: rest
          → ∀ next outputs,
              run step state start = .ok (next, outputs) → condition outputs next input := by
  have reached {start : List ι} {next : σ} {outputs : List ω}
      (ran : run step state start = .ok (next, outputs))
      : inv outputs next :=
    run_outputs keeps first ran
  constructor
  · intro every start input rest split next outputs ran
    have held := every start (input :: rest) split next outputs ran
    refine (exact outputs next input (reached ran) held).mpr fun last later taken => ?_
    exact every (start ++ [input]) rest (by rw [split, List.append_assoc]; rfl) last
      (outputs ++ later) (run_append ran (by rw [run_singleton, taken]))
  · intro met start
    induction start using List.reverseRecOn with
    | nil =>
        intro rest _ next outputs ran
        obtain ⟨_, rfl⟩ := Prod.mk.inj (Except.ok.inj ran)
        exact empty
    | append_singleton start input ih =>
        intro rest split next outputs ran
        obtain ⟨middle, early, late, head, tail, rfl⟩ := run_append_iff.mp ran
        rw [run_singleton] at tail
        have parts : inputs = start ++ input :: rest := by
          rw [split, List.append_assoc]
          rfl
        have held := ih (input :: rest) parts middle early head
        exact (exact early middle input (reached head) held).mp
          (met start input rest parts middle early head) next late tail

/-- An invariant about the inputs so far and the state, by induction on the inputs. -/
theorem run_history {inv : List ι → σ → Prop}
    (keeps
      : ∀ received state input next outputs,
          inv received state
          → step state input = .ok (next, outputs)
          → inv (received ++ [input]) next)
    {state last : σ} {received inputs : List ι} {outputs : List ω} (start : inv received state)
    (ran : run step state inputs = .ok (last, outputs))
    : inv (received ++ inputs) last := by
  induction inputs generalizing state received outputs with
  | nil =>
      obtain ⟨rfl, rfl⟩ := Prod.mk.inj (Except.ok.inj ran)
      rwa [List.append_nil]
  | cons input rest ih =>
      obtain ⟨next, first, later, taken, tail, rfl⟩ := run_cons_iff.mp ran
      have kept := ih (keeps received state input next first start taken) tail
      rwa [List.append_assoc] at kept

/-- Outputs paid for by inputs. A state holds a credit of inputs, and every step pays what its
outputs cost from the credit and from its own input, at a fixed rate; then a run has paid for all
its outputs, and what it is left with is still held. By induction on the inputs.
-/
theorem run_paid {credit : σ → Nat → Prop} {cost : List ω → Nat} {rate : Nat}
    (free : cost [] = 0)
    (joined : ∀ first later, cost (first ++ later) = cost first + cost later)
    (pays
      : ∀ state held input next outputs,
          credit state held
          → step state input = .ok (next, outputs)
          → ∃ left, credit next left ∧ cost outputs + rate * left ≤ rate * (held + 1))
    {state last : σ} {held : Nat} {inputs : List ι} {outputs : List ω} (start : credit state held)
    (ran : run step state inputs = .ok (last, outputs))
    : ∃ left, credit last left
        ∧ cost outputs + rate * left ≤ rate * (held + inputs.length) := by
  induction inputs generalizing state held outputs with
  | nil =>
      obtain ⟨rfl, rfl⟩ := Prod.mk.inj (Except.ok.inj ran)
      refine ⟨held, start, ?_⟩
      rw [List.flatten_nil, free, Nat.zero_add]
      exact Nat.le_refl _
  | cons input rest ih =>
      obtain ⟨next, first, later, taken, tail, rfl⟩ := run_cons_iff.mp ran
      obtain ⟨middle, kept, paid⟩ := pays state held input next first start taken
      obtain ⟨left, final, rest⟩ := ih kept tail
      refine ⟨left, final, ?_⟩
      rw [joined, List.length_cons]
      simp only [Nat.mul_add] at paid rest ⊢
      omega

/-- Where an invariant about the inputs so far is kept, and lets every input be taken, a run does
not stop; by induction on the inputs from the last one.
-/
theorem run_takes {inv : List ι → σ → Prop}
    (takes
      : ∀ received state input,
          inv received state → ∃ next outputs, step state input = .ok (next, outputs))
    (keeps
      : ∀ received state input next outputs,
          inv received state
          → step state input = .ok (next, outputs)
          → inv (received ++ [input]) next)
    {state : σ} (start : inv [] state) (inputs : List ι)
    : ∃ last outputs, run step state inputs = .ok (last, outputs) := by
  induction inputs using List.reverseRecOn with
  | nil => exact ⟨state, [], rfl⟩
  | append_singleton before input ih =>
      obtain ⟨middle, early, ran⟩ := ih
      have kept : inv before middle := run_history keeps start ran
      obtain ⟨last, late, taken⟩ := takes before middle input kept
      exact ⟨last, early ++ late, run_append ran (by rw [run_singleton, taken])⟩

/-- Where each step of a machine is a run of another one, over some inputs and with the outputs
that show, so are its runs; by induction on the inputs.
-/
theorem run_simulates {τ φ κ α : Type*} {other : τ → κ → Except φ (τ × List α)} (abs : σ → τ)
    (fed : ι → List κ) (shown : ω → Option α)
    (simulates
      : ∀ state input next outputs,
          step state input = .ok (next, outputs)
          → run other (abs state) (fed input) = .ok (abs next, outputs.filterMap shown))
    {state last : σ} {inputs : List ι} {outputs : List ω}
    (ran : run step state inputs = .ok (last, outputs))
    : run other (abs state) (inputs.flatMap fed) = .ok (abs last, outputs.filterMap shown) := by
  induction inputs generalizing state outputs with
  | nil =>
      obtain ⟨rfl, rfl⟩ := Prod.mk.inj (Except.ok.inj ran)
      rfl
  | cons input rest ih =>
      obtain ⟨next, first, later, taken, tail, rfl⟩ := run_cons_iff.mp ran
      rw [List.flatMap_cons, List.filterMap_append]
      exact run_append (simulates state input next first taken) (ih tail)

-----------------------------------------------------------------------------------------
-- Two machines in a row
-----------------------------------------------------------------------------------------

section Cascade

variable {τ φ α : Type*}

/-- A machine that passes each output on to a second one as soon as it makes it. -/
def cascade (step : σ → ι → Except ε (σ × List ω)) (handler : τ → ω → Except φ (τ × List α))
    (state : σ × τ) (input : ι)
    : Except (ε ⊕ φ) ((σ × τ) × List α) :=
  match step state.1 input with
  | .error fault => .error (.inl fault)
  | .ok (next, outputs) =>
      match run handler state.2 outputs with
      | .error fault => .error (.inr fault)
      | .ok (after, answers) => .ok ((next, after), answers)

variable {handler : τ → ω → Except φ (τ × List α)}

/-- One input of a cascade: a step, and a run of the handler over its outputs. -/
theorem cascade_iff {state next : σ} {handled after : τ} {input : ι} {answers : List α}
    : cascade step handler (state, handled) input = .ok ((next, after), answers)
      ↔ ∃ outputs,
          step state input = .ok (next, outputs)
          ∧ run handler handled outputs = .ok (after, answers) := by
  cases taken : step state input with
  | error fault => simp [cascade, taken]
  | ok result =>
      obtain ⟨stepped, outputs⟩ := result
      cases passed : run handler handled outputs with
      | error fault =>
          simp only [cascade, taken, passed, reduceCtorEq, Except.ok.injEq, Prod.mk.injEq,
            false_iff, not_exists, not_and]
          rintro _ ⟨rfl, rfl⟩
          simp [passed]
      | ok result =>
          obtain ⟨final, replies⟩ := result
          simp only [cascade, taken, passed, Except.ok.injEq, Prod.mk.injEq]
          constructor
          · rintro ⟨⟨rfl, rfl⟩, rfl⟩
            exact ⟨outputs, ⟨rfl, rfl⟩, passed⟩
          · rintro ⟨_, ⟨rfl, rfl⟩, again⟩
            obtain ⟨rfl, rfl⟩ := Prod.mk.inj (Except.ok.inj (passed.symm.trans again))
            exact ⟨⟨rfl, rfl⟩, rfl⟩

/-- A run of a cascade is a run of the first machine and one of the second over what the
first puts out; by induction on the inputs.
-/
theorem run_cascade {state last : σ} {handled after : τ} {inputs : List ι}
    {outputs : List ω} {answers : List α}
    (ran : run step state inputs = .ok (last, outputs))
    (passed : run handler handled outputs = .ok (after, answers))
    : run (cascade step handler) (state, handled) inputs = .ok ((last, after), answers) := by
  induction inputs generalizing state handled outputs answers with
  | nil =>
      obtain ⟨rfl, rfl⟩ := Prod.mk.inj (Except.ok.inj ran)
      obtain ⟨rfl, rfl⟩ := Prod.mk.inj (Except.ok.inj passed)
      rfl
  | cons input rest ih =>
      obtain ⟨next, first, later, taken, tail, rfl⟩ := run_cons_iff.mp ran
      obtain ⟨middle, early, late, head, behind, rfl⟩ := run_append_iff.mp passed
      exact run_cons_iff.mpr
        ⟨(next, middle), early, late, cascade_iff.mpr ⟨first, taken, head⟩, ih tail behind, rfl⟩

end Cascade

end Transducer
