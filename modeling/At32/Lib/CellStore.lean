import At32.Lib.CellWalk
import At32.Lib.LastWrite
import At32.Lib.Transducer

/-! Stores of cells over whole sessions: requests that read cells and requests that store in
them, taken one after another, against the last item stored in each cell.
-/

namespace CellStore

open Transducer

variable {κ β ω σ ρ ε : Type*}

/-- A request to a store: the item that it leaves in a cell, if any, and its answer, by what the
cells hold before it.
-/
structure Request (κ β ω : Type*) where
  stored : κ → Option β
  answer : (κ → β) → List ω

/-- What the cells hold behind a request. -/
def Request.after (request : Request κ β ω) (cells : κ → β) : κ → β :=
  fun cell => (request.stored cell).getD (cells cell)

/-- A cell holds the last item stored in it, or what it held before the requests. -/
def found (cells : κ → β) (requests : List (Request κ β ω)) : κ → β :=
  fun cell => (LastWrite.last (fun request => request.stored cell) requests).getD (cells cell)

@[simp] theorem found_nil (cells : κ → β)
    : found cells ([] : List (Request κ β ω)) = cells := rfl

theorem found_cons (cells : κ → β) (request : Request κ β ω) (rest : List (Request κ β ω))
    : found cells (request :: rest) = found (request.after cells) rest := by
  funext cell
  rw [found, LastWrite.last_cons, Option.getD_or]
  rfl

-----------------------------------------------------------------------------------------
-- Items along a walk
-----------------------------------------------------------------------------------------

variable [DecidableEq κ] (next : κ → κ)

/-- The item that a walk which stores items one by one leaves in a cell. -/
def leaves (place : κ) : List β → κ → Option β
  | [], _ => none
  | item :: rest, cell =>
      (leaves (next place) rest cell).or (if cell = place then some item else none)

/-- A walk overwrites the cells that it leaves something in, by induction on the items. -/
theorem storeAll_eq_leaves (cells : κ → β) (place : κ) (items : List β)
    : CellWalk.storeAll next (fun _ item => item) cells place items
      = fun cell => (leaves next place items cell).getD (cells cell) := by
  induction items generalizing cells place with
  | nil => rfl
  | cons item rest ih =>
      rw [CellWalk.storeAll, ih]
      funext cell
      rw [leaves, Option.getD_or]
      congr 1
      by_cases here : cell = place
      · subst here
        rw [Function.update_self, if_pos rfl, Option.getD_some]
      · rw [Function.update_of_ne here, if_neg here, Option.getD_none]

/-- A request that stores items from a place on. -/
def Request.write (place : κ) (items : List β) : Request κ β ω where
  stored := leaves next place items
  answer _ := []

/-- A request for what so many cells from a place on hold. -/
def Request.read (place : κ) (count : Nat) : Request κ β β where
  stored _ := none
  answer cells := CellWalk.readAll next cells place count

theorem Request.after_write (place : κ) (items : List β) (cells : κ → β)
    : (Request.write (ω := ω) next place items).after cells
      = CellWalk.storeAll next (fun _ item => item) cells place items :=
  (storeAll_eq_leaves next cells place items).symm

-----------------------------------------------------------------------------------------
-- Sessions
-----------------------------------------------------------------------------------------

omit [DecidableEq κ]

variable {μ : Type*}

/-- What the calls of a session ask for, where the mode that earlier ones left decides it. -/
def requests (meaning : μ → ρ → Request κ β ω) (shift : μ → ρ → μ)
    : μ → List ρ → List (Request κ β ω)
  | _, [] => []
  | mode, call :: rest => meaning mode call :: requests meaning shift (shift mode call) rest

/-- While (ready) holds, a machine with modes serves the legal calls as a store of cells does,
and a call shifts the mode.
-/
structure ModalServes (step : σ → ρ → Except ε (σ × List ω)) (ready : σ → Prop)
    (legal : ρ → Prop) (meaning : μ → ρ → Request κ β ω) (shift : μ → ρ → μ) (mode : σ → μ)
    (cells : σ → κ → β)
    : Prop where
  served
    : ∀ s call,
        ready s
        → legal call
        → ∃ t,
            step s call = .ok (t, (meaning (mode s) call).answer (cells s))
            ∧ ready t
            ∧ mode t = shift (mode s) call
            ∧ cells t = (meaning (mode s) call).after (cells s)

/-- Whatever the order of the calls: all are served, each is answered by the mode and the items
stored last before it, and the cells are left with the items stored last. By induction on the
calls.
-/
theorem ModalServes.session {step : σ → ρ → Except ε (σ × List ω)} {ready : σ → Prop}
    {legal : ρ → Prop} {meaning : μ → ρ → Request κ β ω} {shift : μ → ρ → μ} {mode : σ → μ}
    {cells : σ → κ → β} (serves : ModalServes step ready legal meaning shift mode cells) {s : σ}
    (start : ready s) {calls : List ρ} (all : ∀ call ∈ calls, legal call)
    : ∃ t answers,
        trace step s calls = .ok (t, answers)
        ∧ ready t
        ∧ mode t = calls.foldl shift (mode s)
        ∧ cells t = found (cells s) (requests meaning shift (mode s) calls)
        ∧ ∀ before call later,
            calls = before ++ call :: later
            → answers[before.length]?
              = some
                  ((meaning (before.foldl shift (mode s)) call).answer
                    (found (cells s) (requests meaning shift (mode s) before))) := by
  induction calls generalizing s with
  | nil =>
      refine ⟨s, [], rfl, start, rfl, rfl, fun before call later split => ?_⟩
      simp at split
  | cons first rest ih =>
      obtain ⟨legalFirst, legalRest⟩ := List.forall_mem_cons.mp all
      obtain ⟨u, taken, ready, shifted, stored⟩ := serves.served s first start legalFirst
      obtain ⟨t, answers, served, done, left, cells, answered⟩ := ih ready legalRest
      rw [shifted] at left cells answered
      rw [stored] at cells answered
      refine ⟨t, _ :: answers, trace_cons_iff.mpr ⟨u, _, _, taken, served, rfl⟩, done, left, ?_,
        ?_⟩
      · rw [cells, requests, found_cons]
      · intro before call later split
        cases before with
        | nil =>
            obtain ⟨rfl, rfl⟩ := List.cons.inj split
            rfl
        | cons head before =>
            obtain ⟨rfl, rfl⟩ := List.cons.inj split
            rw [List.length_cons, List.getElem?_cons_succ, answered before call later rfl,
              List.foldl_cons, requests, found_cons]

/-- While (ready) holds, a machine serves the legal calls as a store of cells does. -/
structure Serves (step : σ → ρ → Except ε (σ × List ω)) (ready : σ → Prop) (legal : ρ → Prop)
    (meaning : ρ → Request κ β ω) (cells : σ → κ → β)
    : Prop where
  served
    : ∀ s call,
        ready s
        → legal call
        → ∃ t,
            step s call = .ok (t, (meaning call).answer (cells s))
            ∧ ready t
            ∧ cells t = (meaning call).after (cells s)

/-- Without modes each call has its own meaning. -/
theorem requests_eq_map (meaning : ρ → Request κ β ω) (calls : List ρ)
    : requests (fun _ : Unit => meaning) (fun mode _ => mode) () calls = calls.map meaning := by
  induction calls with
  | nil => rfl
  | cons call rest ih => rw [requests, ih, List.map_cons]

/-- A session of a machine without modes. -/
theorem Serves.session {step : σ → ρ → Except ε (σ × List ω)} {ready : σ → Prop}
    {legal : ρ → Prop} {meaning : ρ → Request κ β ω} {cells : σ → κ → β}
    (serves : Serves step ready legal meaning cells) {s : σ} (start : ready s)
    {calls : List ρ} (all : ∀ call ∈ calls, legal call)
    : ∃ t answers,
        trace step s calls = .ok (t, answers)
        ∧ ready t
        ∧ cells t = found (cells s) (calls.map meaning)
        ∧ ∀ before call later,
            calls = before ++ call :: later
            → answers[before.length]?
              = some ((meaning call).answer (found (cells s) (before.map meaning))) := by
  have modal
      : ModalServes step ready legal (fun _ : Unit => meaning) (fun mode _ => mode)
          (fun _ => ()) cells := by
    refine ⟨fun s call here allowed => ?_⟩
    obtain ⟨t, taken, done, stored⟩ := serves.served s call here allowed
    exact ⟨t, taken, done, rfl, stored⟩
  obtain ⟨t, answers, served, done, _, left, answered⟩ := modal.session start all
  refine ⟨t, answers, served, done, ?_, fun before call later split => ?_⟩
  · rw [left, requests_eq_map]
  · rw [answered before call later split, requests_eq_map]

end CellStore
