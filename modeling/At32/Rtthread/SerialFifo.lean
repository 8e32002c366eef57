import At32.Lib.RingBuffer
import At32.Lib.Transducer

/-! The receive buffer of a serial device that is open with interrupts: rt_hw_serial_isr puts the
characters of the driver in, a thread takes them out in calls of rt_serial_read, and interrupts
come between any two passes of its loop.
-/

namespace At32.SerialFifo

open RingBuffer Transducer

/-- rt_serial_rx_fifo, with the buffer size of the configuration. -/
structure RxFifo (bufsz : UInt16) where
  buffer : Vector UInt8 bufsz.toNat
  putIndex : UInt16
  getIndex : UInt16
  isFull : Bool

/-- The buffer that rt_serial_open makes. -/
def RxFifo.opened (bufsz : UInt16) : RxFifo bufsz :=
  {
    buffer := Vector.replicate bufsz.toNat 0
    putIndex := 0
    getIndex := 0
    isFull := false
  }

variable {bufsz : UInt16}

/-- An index that has been counted up begins again at the end of the buffer. -/
def wrapped (bufsz index : UInt16) : UInt16 := if bufsz ≤ index then 0 else index

/-- A pass of the loop of rt_hw_serial_isr with a character; none where it would be stored outside
the buffer.
-/
def RxFifo.put (fifo : RxFifo bufsz) (ch : UInt8) : Option (RxFifo bufsz) :=
  if fifo.putIndex.toNat < bufsz.toNat then
    let fifo :=
      { fifo with
        buffer := fifo.buffer.setIfInBounds fifo.putIndex.toNat ch
        putIndex := wrapped bufsz (fifo.putIndex + 1) }
    if fifo.putIndex = fifo.getIndex then
      some { fifo with isFull := true, getIndex := wrapped bufsz (fifo.getIndex + 1) }
    else
      some fifo
  else
    none

/-- The length that rt_hw_serial_isr finds for its callback. -/
def RxFifo.rxLength (fifo : RxFifo bufsz) : Nat :=
  if fifo.getIndex ≤ fifo.putIndex then fifo.putIndex.toNat - fifo.getIndex.toNat
  else bufsz.toNat - (fifo.getIndex.toNat - fifo.putIndex.toNat)

/-- The loop of rt_hw_serial_isr, with the characters that getc returns before it returns -1. -/
def RxFifo.putAll (fifo : RxFifo bufsz) : List UInt8 → Option (RxFifo bufsz)
  | [] => some fifo
  | ch :: rest =>
      match fifo.put ch with
      | none => none
      | some fifo => fifo.putAll rest

/-- A pass of the loop of _serial_int_rx, with the character if there is one; none where it would
be read outside the buffer.
-/
def RxFifo.take (fifo : RxFifo bufsz) : Option (Option UInt8 × RxFifo bufsz) :=
  if fifo.getIndex = fifo.putIndex ∧ fifo.isFull = false then
    some (none, fifo)
  else
    match fifo.buffer[fifo.getIndex.toNat]? with
    | none => none
    | some ch =>
        some (some ch, { fifo with getIndex := wrapped bufsz (fifo.getIndex + 1), isFull := false })

-----------------------------------------------------------------------------------------
-- Interrupts and a thread that reads
-----------------------------------------------------------------------------------------

/-- A call of rt_serial_read: the size asked for and the length that is left. -/
structure ReadCall where
  size : Nat
  length : Nat
  fits : length ≤ size

/-- The buffer, the call that the thread is in, and the sizes of those that it will make. -/
structure Machine (bufsz : UInt16) where
  fifo : RxFifo bufsz
  call : Option ReadCall
  calls : List Nat

/-- The interrupt, with the characters that it finds, or the next step of the thread. -/
inductive Event
  | rxInd (chars : List UInt8)
  | thread
  deriving DecidableEq, Repr

/-- The callback with a length, a character stored for the caller, and what a call returns. -/
inductive Output
  | rxIndicate (rxLength : Nat)
  | data (ch : UInt8)
  | returned (size : Nat)
  deriving DecidableEq, Repr

/-- A step of the thread: the beginning of a call, a pass of its loop, or its end. -/
def Machine.thread (m : Machine bufsz) : Except Unit (Machine bufsz × List Output) :=
  match m.call with
  | none =>
      match m.calls with
      | [] => .ok (m, [])
      | size :: rest => .ok ({ m with call := some ⟨size, size, Nat.le_refl size⟩, calls := rest }, [])
  | some ⟨size, 0, _⟩ => .ok ({ m with call := none }, [.returned size])
  | some ⟨size, length + 1, fits⟩ =>
      match m.fifo.take with
      | none => .error ()
      | some (none, _) => .ok ({ m with call := none }, [.returned (size - (length + 1))])
      | some (some ch, fifo) =>
          .ok ({ m with fifo, call := some ⟨size, length, Nat.le_of_succ_le fits⟩ }, [.data ch])

/-- The callback is not made for a length of 0. -/
def Machine.step (m : Machine bufsz) : Event → Except Unit (Machine bufsz × List Output)
  | .rxInd chars =>
      match m.fifo.putAll chars with
      | none => .error ()
      | some fifo =>
          .ok ({ m with fifo }, if fifo.rxLength = 0 then [] else [.rxIndicate fifo.rxLength])
  | .thread => m.thread

-----------------------------------------------------------------------------------------
-- The queue that the buffer holds
-----------------------------------------------------------------------------------------

/-- The buffer holds a queue, with one cell to spare. -/
structure Represents (fifo : RxFifo bufsz) (queue : List UInt8) : Prop where
  getIndex : fifo.getIndex.toNat < bufsz.toNat
  putIndex : fifo.putIndex.toNat = (fifo.getIndex.toNat + queue.length) % bufsz.toNat
  room : queue.length < bufsz.toNat
  full : fifo.isFull = true → queue ≠ []
  holds : Holds fifo.buffer fifo.getIndex.toNat queue

theorem represents_opened (positive : 0 < bufsz.toNat)
    : Represents (.opened bufsz) [] where
  getIndex := positive
  putIndex := (Nat.zero_mod _).symm
  room := positive
  full := nofun
  holds := .nil _ _

/-- An index of the buffer counted up is the next one around the end. -/
theorem wrapped_toNat {index : UInt16} (inside : index.toNat < bufsz.toNat)
    : (wrapped bufsz (index + 1)).toNat = (index.toNat + 1) % bufsz.toNat := by
  have bound := bufsz.toNat_lt
  have next : (index + 1).toNat = index.toNat + 1 := by
    rw [UInt16.toNat_add, UInt16.toNat_one]
    omega
  simp only [wrapped, UInt16.le_iff_toNat_le, next]
  split
  · have last : index.toNat + 1 = bufsz.toNat := by omega
    rw [last, Nat.mod_self]
    rfl
  · rw [next, Nat.mod_eq_of_lt (by omega)]

variable {fifo : RxFifo bufsz} {queue : List UInt8}

/-- The indices are equal exactly when the queue is empty. -/
theorem Represents.indices_iff (represents : Represents fifo queue)
    : fifo.getIndex = fifo.putIndex ↔ queue = [] := by
  have room := represents.room
  have inside := represents.getIndex
  rw [← UInt16.toNat_inj, represents.putIndex, ← List.length_eq_zero_iff]
  rcases Nat.lt_or_ge (fifo.getIndex.toNat + queue.length) bufsz.toNat with before | behind
  · rw [Nat.mod_eq_of_lt before]
    omega
  · rw [Nat.mod_eq_sub_mod behind, Nat.mod_eq_of_lt (by omega)]
    omega

/-- The length for the callback is that of the queue. -/
theorem Represents.rxLength (represents : Represents fifo queue)
    : fifo.rxLength = queue.length := by
  have room := represents.room
  have inside := represents.getIndex
  simp only [RxFifo.rxLength, UInt16.le_iff_toNat_le, represents.putIndex]
  rcases Nat.lt_or_ge (fifo.getIndex.toNat + queue.length) bufsz.toNat with before | behind
  · rw [Nat.mod_eq_of_lt before, if_pos (Nat.le_add_right _ _), Nat.add_sub_cancel_left]
  · rw [Nat.mod_eq_sub_mod behind, Nat.mod_eq_of_lt (by omega), if_neg (by omega)]
    omega

/-- A pass without a character leaves the buffer alone. -/
theorem Represents.take_nil (represents : Represents fifo [])
    : fifo.take = some (none, fifo) := by
  have indices := represents.indices_iff.mpr rfl
  have empty : fifo.isFull = false := by
    rw [← Bool.not_eq_true]
    exact fun full => represents.full full rfl
  exact if_pos ⟨indices, empty⟩

/-- A pass takes the oldest character. -/
theorem Represents.take_cons {ch : UInt8} (represents : Represents fifo (ch :: queue))
    : ∃ next, fifo.take = some (some ch, next) ∧ Represents next queue := by
  have indices : ¬ fifo.getIndex = fifo.putIndex :=
    represents.indices_iff.not.mpr (List.cons_ne_nil _ _)
  have inside := represents.getIndex
  have wrap := wrapped_toNat inside
  have first := represents.holds.head
  rw [Nat.mod_eq_of_lt inside] at first
  refine
    ⟨{ fifo with getIndex := wrapped bufsz (fifo.getIndex + 1), isFull := false }, ?_,
      {
        getIndex := ?_
        putIndex := ?_
        room := Nat.lt_of_succ_lt represents.room
        full := nofun
        holds := ?_
      }⟩
  · rw [RxFifo.take, if_neg fun empty => indices empty.1, first]
  · rw [wrap]
    exact Nat.mod_lt _ (Nat.zero_lt_of_lt inside)
  · rw [wrap, Nat.mod_add_mod, represents.putIndex, List.length_cons, Nat.add_assoc,
      Nat.add_comm 1]
  · rw [wrap, holds_mod]
    exact represents.holds.tail

/-- A pass of the interrupt keeps the newest characters that there is room for. -/
theorem Represents.put (represents : Represents fifo queue) (several : 2 ≤ bufsz.toNat)
    (ch : UInt8)
    : ∃ next,
        fifo.put ch = some next
        ∧ Represents next ((queue ++ [ch]).rtake (bufsz.toNat - 1)) := by
  have inside := represents.getIndex
  have room := represents.room
  have below : fifo.putIndex.toNat < bufsz.toNat := by
    rw [represents.putIndex]
    exact Nat.mod_lt _ (Nat.zero_lt_of_lt inside)
  have next : (wrapped bufsz (fifo.putIndex + 1)).toNat
      = (fifo.getIndex.toNat + (queue ++ [ch]).length) % bufsz.toNat := by
    rw [wrapped_toNat below, represents.putIndex, Nat.mod_add_mod, List.length_append]
    rfl
  have holds := represents.holds.append room ch
  rw [← represents.putIndex] at holds
  have grown : (queue ++ [ch]).length = queue.length + 1 := List.length_append
  simp only [RxFifo.put, if_pos below]
  rcases Nat.lt_or_ge (queue.length + 1) bufsz.toNat with roomy | last
  · -- a cell is left to spare
    have stored
        : Represents
            { fifo with
              buffer := fifo.buffer.setIfInBounds fifo.putIndex.toNat ch
              putIndex := wrapped bufsz (fifo.putIndex + 1) }
            (queue ++ [ch]) :=
      {
        getIndex := inside
        putIndex := next
        room := by rwa [grown]
        full := fun _ => List.append_ne_nil_of_right_ne_nil _ (List.cons_ne_nil _ _)
        holds := holds
      }
    have apart := stored.indices_iff.not.mpr
      (List.append_ne_nil_of_right_ne_nil _ (List.cons_ne_nil _ _))
    rw [if_neg (Ne.symm apart), rtake_of_le (by omega)]
    exact ⟨_, rfl, stored⟩
  · -- the oldest one is given up
    obtain ⟨oldest, rest, rfl⟩ : ∃ oldest rest, queue = oldest :: rest :=
      List.exists_cons_of_length_pos (by omega)
    have whole : (oldest :: rest ++ [ch]).length = bufsz.toNat := by omega
    have equal : wrapped bufsz (fifo.putIndex + 1) = fifo.getIndex := by
      rw [← UInt16.toNat_inj, next, whole, Nat.add_mod_right, Nat.mod_eq_of_lt inside]
    have left : (oldest :: rest ++ [ch]).rtake (bufsz.toNat - 1) = rest ++ [ch] := by
      rw [List.cons_append, rtake_cons, rtake_of_le] <;> simp at whole ⊢ <;> omega
    have wrap := wrapped_toNat inside
    rw [if_pos equal, left]
    refine ⟨_, rfl, ?_⟩
    refine
      {
        getIndex := ?_
        putIndex := ?_
        room := ?_
        full := fun _ => List.append_ne_nil_of_right_ne_nil _ (List.cons_ne_nil _ _)
        holds := ?_
      }
    · rw [wrap]
      exact Nat.mod_lt _ (Nat.zero_lt_of_lt inside)
    · rw [wrap, Nat.mod_add_mod, next, Nat.add_assoc]
      congr 2
      simp only [List.cons_append, List.length_cons]
      omega
    · simp at whole ⊢
      omega
    · rw [wrap, holds_mod]
      exact holds.tail

/-- So does the whole loop, by induction on the characters. -/
theorem Represents.putAll (represents : Represents fifo queue) (several : 2 ≤ bufsz.toNat)
    (chars : List UInt8)
    : ∃ next,
        fifo.putAll chars = some next
        ∧ Represents next ((queue ++ chars).rtake (bufsz.toNat - 1)) := by
  induction chars generalizing fifo queue with
  | nil =>
      have few : queue.length ≤ bufsz.toNat - 1 := Nat.le_sub_one_of_lt represents.room
      rw [List.append_nil, rtake_of_le few]
      exact ⟨fifo, rfl, represents⟩
  | cons ch rest ih =>
      obtain ⟨middle, first, kept⟩ := represents.put several ch
      obtain ⟨next, later, kept⟩ := ih kept
      rw [rtake_append, List.append_assoc] at kept
      exact ⟨next, by simp only [RxFifo.putAll, first, later], kept⟩

-----------------------------------------------------------------------------------------
-- Runs
-----------------------------------------------------------------------------------------

/-- The characters of an event. -/
def Event.chars : Event → List UInt8
  | .rxInd chars => chars
  | .thread => []

/-- The characters that the interrupts of a run have found. -/
def received (events : List Event) : List UInt8 := events.flatMap Event.chars

def Output.stored? : Output → Option UInt8
  | .data ch => some ch
  | _ => none

/-- The characters that the calls have stored for their callers. -/
def stored (outputs : List Output) : List UInt8 := outputs.filterMap Output.stored?

def Output.size : Output → Nat
  | .returned size => size
  | _ => 0

/-- What the calls have returned. -/
def returned (outputs : List Output) : Nat := (outputs.map Output.size).sum

/-- What a call that has not returned has stored. -/
def Machine.pending (m : Machine bufsz) : Nat :=
  match m.call with
  | none => 0
  | some call => call.size - call.length

/-- What a step does to the queue (queue): what is stored and what is left are the newest
characters of the queue with those of the event, and a step does not both find and store any.
-/
structure StepSpec (m : Machine bufsz) (queue : List UInt8) (event : Event) (next : Machine bufsz)
    (outputs : List Output) (left : List UInt8)
    : Prop where
  represents : Represents next.fifo left
  kept : stored outputs ++ left = (queue ++ event.chars).rtake (bufsz.toNat - 1)
  either : event.chars = [] ∨ stored outputs = []
  count : returned outputs + next.pending = m.pending + (stored outputs).length

/-- A step of the interrupt. -/
theorem Machine.step_rxInd {m : Machine bufsz} (represents : Represents m.fifo queue)
    (several : 2 ≤ bufsz.toNat) (chars : List UInt8)
    : ∃ next left,
        m.step (.rxInd chars)
          = .ok (next, if left = [] then [] else [.rxIndicate left.length])
        ∧ StepSpec m queue (.rxInd chars) next
            (if left = [] then [] else [.rxIndicate left.length]) left := by
  obtain ⟨fifo, put, kept⟩ := represents.putAll several chars
  refine ⟨{ m with fifo }, (queue ++ chars).rtake (bufsz.toNat - 1), ?_, ?_⟩
  · simp only [Machine.step, put, kept.rxLength, List.length_eq_zero_iff]
  · have none : stored (if (queue ++ chars).rtake (bufsz.toNat - 1) = [] then []
        else [.rxIndicate ((queue ++ chars).rtake (bufsz.toNat - 1)).length]) = [] := by
      split <;> rfl
    refine { represents := kept, kept := ?_, either := Or.inr none, count := ?_ }
    · rw [none]
      rfl
    · rw [none]
      split <;> exact Nat.zero_add _

/-- A step of the thread, by cases on where it is. -/
theorem Machine.step_thread {m : Machine bufsz} (represents : Represents m.fifo queue)
    : ∃ next outputs left,
        m.step .thread = .ok (next, outputs) ∧ StepSpec m queue .thread next outputs left := by
  have few : queue.length ≤ bufsz.toNat - 1 := Nat.le_sub_one_of_lt represents.room
  have all : (queue ++ Event.thread.chars).rtake (bufsz.toNat - 1) = queue := by
    rw [Event.chars, List.append_nil, rtake_of_le few]
  obtain ⟨fifo, call, calls⟩ := m
  cases call with
  | none =>
      cases calls with
      | nil =>
          refine ⟨_, [], queue, rfl, ?_⟩
          exact { represents := represents, kept := all.symm, either := Or.inl rfl, count := rfl }
      | cons size rest =>
          refine ⟨_, [], queue, rfl, ?_⟩
          refine
            {
              represents := represents
              kept := all.symm
              either := Or.inl rfl
              count := ?_
            }
          exact (Nat.zero_add _).trans (Nat.sub_self size)
  | some call =>
      obtain ⟨size, length, fits⟩ := call
      cases length with
      | zero =>
          refine ⟨_, [.returned size], queue, rfl, ?_⟩
          exact { represents := represents, kept := all.symm, either := Or.inl rfl, count := rfl }
      | succ length =>
          cases queue with
          | nil =>
              refine ⟨{ fifo, call := none, calls }, [.returned (size - (length + 1))], [], ?_, ?_⟩
              · simp only [Machine.step, Machine.thread, represents.take_nil]
              · exact
                  { represents := represents, kept := all.symm, either := Or.inl rfl, count := rfl }
          | cons ch rest =>
              obtain ⟨next, took, left⟩ := represents.take_cons
              refine
                ⟨{ fifo := next, call := some ⟨size, length, Nat.le_of_succ_le fits⟩, calls },
                  [.data ch], rest, ?_, ?_⟩
              · simp only [Machine.step, Machine.thread, took]
              · refine
                  {
                    represents := left
                    kept := all.symm
                    either := Or.inl rfl
                    count := ?_
                  }
                change 0 + (size - length) = size - (length + 1) + 1
                omega

/-- A step, by cases on the event. -/
theorem Machine.step_spec {m : Machine bufsz} (represents : Represents m.fifo queue)
    (several : 2 ≤ bufsz.toNat) (event : Event)
    : ∃ next outputs left,
        m.step event = .ok (next, outputs) ∧ StepSpec m queue event next outputs left := by
  cases event with
  | rxInd chars =>
      obtain ⟨next, left, stepped, spec⟩ := Machine.step_rxInd represents several chars
      exact ⟨next, _, left, stepped, spec⟩
  | thread => exact Machine.step_thread represents

theorem stored_append (outputs later : List Output)
    : stored (outputs ++ later) = stored outputs ++ stored later :=
  List.filterMap_append

theorem returned_append (outputs later : List Output)
    : returned (outputs ++ later) = returned outputs + returned later := by
  rw [returned, List.map_append, List.sum_append]
  rfl

/-- At every point of the run the calls lag at most so many characters behind the interrupts as
the buffer has room for, where (backlog) characters were left to begin with.
-/
def KeepsUp (m : Machine bufsz) (backlog : Nat) (events : List Event) : Prop :=
  ∀ before outputs u,
    before <+: events
    → run Machine.step m before = .ok (u, outputs)
    → backlog + (received before).length ≤ (stored outputs).length + (bufsz.toNat - 1)

theorem KeepsUp.nil (m : Machine bufsz) {backlog : Nat} (few : backlog ≤ bufsz.toNat - 1)
    : KeepsUp m backlog [] := by
  intro before outputs u within ran
  obtain rfl := List.prefix_nil.mp within
  obtain ⟨-, rfl⟩ := Prod.mk.inj (Except.ok.inj ran)
  exact Nat.le_trans few (Nat.le_add_left _ _)

/-- Where nothing is given up in a step, what is stored and what is left are all characters. -/
theorem StepSpec.length {m next : Machine bufsz} {event : Event} {first : List Output}
    {left : List UInt8} (spec : StepSpec m queue event next first left)
    : (stored first).length + left.length
      = min (bufsz.toNat - 1) (queue.length + event.chars.length) := by
  rw [← List.length_append, spec.kept, rtake_length, List.length_append]

/-- The condition on a run, by its first step. -/
theorem keepsUp_cons_iff {m next : Machine bufsz} {event : Event} {events : List Event}
    {first : List Output} {left : List UInt8}
    (few : queue.length ≤ bufsz.toNat - 1) (stepped : m.step event = .ok (next, first))
    (spec : StepSpec m queue event next first left)
    : KeepsUp m queue.length (event :: events)
      ↔ queue.length + event.chars.length ≤ bufsz.toNat - 1
        ∧ KeepsUp next left.length events := by
  have lengths := spec.length
  constructor
  · intro keeps
    have here := keeps [event] first next (List.prefix_append [event] events)
      ((run_singleton m event).trans stepped)
    have all : queue.length + event.chars.length ≤ bufsz.toNat - 1 := by
      rcases spec.either with found | none
      · rwa [found]
      · rwa [none, received, List.flatMap_singleton, List.length_nil, Nat.zero_add] at here
    refine ⟨all, fun before outputs u within ran => ?_⟩
    have whole := keeps (event :: before) (first ++ outputs) u
      (List.cons_prefix_cons.mpr ⟨rfl, within⟩)
      (run_cons_iff.mpr ⟨_, _, _, stepped, ran, rfl⟩)
    rw [received, List.flatMap_cons, List.length_append, stored_append, List.length_append]
      at whole
    change _ ≤ _ at whole
    rw [received]
    omega
  · intro parts before outputs u within ran
    obtain ⟨all, keeps⟩ := parts
    rcases List.prefix_cons_iff.mp within with rfl | ⟨rest, rfl, tail⟩
    · exact KeepsUp.nil m few [] outputs u List.prefix_rfl ran
    · obtain ⟨_, _, later, again, rest_ran, rfl⟩ := run_cons_iff.mp ran
      obtain ⟨rfl, rfl⟩ := Prod.mk.inj (Except.ok.inj (stepped.symm.trans again))
      have whole := keeps rest later u tail rest_ran
      rw [received, List.flatMap_cons, List.length_append, stored_append, List.length_append]
      rw [received] at whole
      omega

/-- In every run, from a buffer that holds a queue: what the calls store and what is left in the
buffer are the characters of the queue and the interrupts in their order, and all of them exactly
when the calls keep up; by induction on the events.
-/
theorem run_spec {m : Machine bufsz} (represents : Represents m.fifo queue)
    (several : 2 ≤ bufsz.toNat) (events : List Event)
    : ∃ last outputs left,
        run Machine.step m events = .ok (last, outputs)
        ∧ Represents last.fifo left
        ∧ (stored outputs ++ left).Sublist (queue ++ received events)
        ∧ (stored outputs ++ left = queue ++ received events ↔ KeepsUp m queue.length events)
        ∧ returned outputs + last.pending = m.pending + (stored outputs).length := by
  have few : queue.length ≤ bufsz.toNat - 1 := Nat.le_sub_one_of_lt represents.room
  induction events generalizing m queue with
  | nil =>
      have same : queue ++ received [] = queue := List.append_nil queue
      refine ⟨m, [], queue, rfl, represents, ?_, ?_, Nat.zero_add _⟩
      · rw [same]
        exact List.Sublist.refl _
      · rw [same]
        exact iff_of_true rfl (KeepsUp.nil m few)
  | cons event events ih =>
      obtain ⟨next, first, left, stepped, spec⟩ := Machine.step_spec represents several event
      have fewLeft : left.length ≤ bufsz.toNat - 1 :=
        Nat.le_sub_one_of_lt spec.represents.room
      obtain ⟨last, outputs, rest, ran, represents, sub, same, count⟩ := ih spec.represents fewLeft
      have chars : queue ++ received (event :: events)
          = (queue ++ event.chars) ++ received events := by
        rw [received, List.flatMap_cons, ← List.append_assoc]
        rfl
      have lengths := spec.length
      refine ⟨last, first ++ outputs, rest, ?_, represents, ?_, ?_, ?_⟩
      · exact run_cons_iff.mpr ⟨_, _, _, stepped, ran, rfl⟩
      · rw [stored_append, List.append_assoc, chars]
        refine (sub.append_left (stored first)).trans ?_
        rw [← List.append_assoc, spec.kept]
        exact (List.drop_sublist _ _).append_right _
      · rw [stored_append, List.append_assoc, chars, keepsUp_cons_iff few stepped spec, ← same]
        constructor
        · intro equal
          have whole := congrArg List.length equal
          have less := sub.length_le
          simp only [List.length_append] at whole less
          refine ⟨by omega, sub.eq_of_length ?_⟩
          simp only [List.length_append]
          omega
        · intro parts
          obtain ⟨all, equal⟩ := parts
          have kept := spec.kept
          rw [rtake_of_le (by rwa [List.length_append])] at kept
          rw [equal, ← List.append_assoc, kept]
      · rw [returned_append, stored_append, List.length_append]
        have := spec.count
        omega

/-- The device as rt_serial_open leaves it, with the calls to come. -/
def Machine.opened (bufsz : UInt16) (calls : List Nat) : Machine bufsz :=
  { fifo := .opened bufsz, call := none, calls }

/-- From a buffer that rt_serial_open has made, with any calls of rt_serial_read of one thread and
any interrupts between any two passes of its loop: no access is outside the buffer, the callers
get the characters in the order in which they came, each call returns the number that it has
stored, the next callback is told how many wait, and none is lost exactly when the calls never lag
more characters behind than the buffer has cells but one.
-/
theorem serialRead_delivers (several : 2 ≤ bufsz.toNat) (calls : List Nat) (events : List Event)
    : ∃ last outputs left,
        run Machine.step (.opened bufsz calls) events = .ok (last, outputs)
        ∧ Represents last.fifo left
        ∧ (stored outputs ++ left).Sublist (received events)
        ∧ (stored outputs ++ left = received events
          ↔ ∀ before later u,
              before <+: events
              → run Machine.step (.opened bufsz calls) before = .ok (u, later)
              → (received before).length ≤ (stored later).length + (bufsz.toNat - 1))
        ∧ returned outputs + last.pending = (stored outputs).length
        ∧ ∀ chars,
            ∃ next waiting,
              last.step (.rxInd chars)
                = .ok (next, if waiting = [] then [] else [.rxIndicate waiting.length])
              ∧ Represents next.fifo waiting := by
  have opened : Represents (Machine.opened bufsz calls).fifo [] :=
    represents_opened (Nat.lt_of_lt_of_le Nat.zero_lt_two several)
  obtain ⟨last, outputs, left, ran, represents, sub, same, count⟩ :=
    run_spec opened several events
  refine ⟨last, outputs, left, ran, represents, sub, same.trans ?_,
    count.trans (Nat.zero_add _), fun chars => ?_⟩
  · rw [KeepsUp]
    simp only [List.length_nil, Nat.zero_add]
  · obtain ⟨next, waiting, stepped, spec⟩ := Machine.step_rxInd represents several chars
    exact ⟨next, waiting, stepped, spec.represents⟩

/-- Two interrupts and two calls with the default buffer of 64 cells. -/
def twoCalls : List Event :=
  [.rxInd [0x61, 0x62], .thread, .thread, .rxInd [0x63], .thread, .thread, .thread, .thread]

theorem serialRead_delivers_default
    : ∃ last outputs left,
        run Machine.step (.opened 64 [2, 1]) twoCalls = .ok (last, outputs)
        ∧ Represents last.fifo left
        ∧ (stored outputs ++ left).Sublist [0x61, 0x62, 0x63]
        ∧ (stored outputs ++ left = [0x61, 0x62, 0x63]
          ↔ ∀ before later u,
              before <+: twoCalls
              → run Machine.step (.opened 64 [2, 1]) before = .ok (u, later)
              → (received before).length ≤ (stored later).length + 63)
        ∧ returned outputs + last.pending = (stored outputs).length
        ∧ ∀ chars,
            ∃ next waiting,
              last.step (.rxInd chars)
                = .ok (next, if waiting = [] then [] else [.rxIndicate waiting.length])
              ∧ Represents next.fifo waiting :=
  serialRead_delivers (by decide) [2, 1] twoCalls

end At32.SerialFifo
