import At32.Rtthread.SerialFifo

/-! A serial device of the driver that is open without interrupts: calls of rt_serial_read poll
the receiver while characters come in.
-/

namespace At32.SerialPoll

open SerialFifo Transducer

/-- The receiver of an instance: USART_STS_RDNE, and the data register. What comes in while a
character waits is lost.
-/
structure Receiver where
  rdne : Bool
  dt : UInt8
  lost : Nat
  deriving DecidableEq, Repr

/-- A character from the line. -/
def Receiver.receive (r : Receiver) (ch : UInt8) : Receiver :=
  if r.rdne then { r with lost := r.lost + 1 } else { r with rdne := true, dt := ch }

/-- The characters that wait. -/
def Receiver.waiting (r : Receiver) : Nat := if r.rdne then 1 else 0

/-- at32_getc: the data register is read, but what is returned is 1. -/
def at32Getc (r : Receiver) : Int × Receiver :=
  if r.rdne then (1, { r with rdne := false }) else (-1, r)

/-- The receiver, the call that the thread is in, and the sizes of those that it will make. -/
structure Machine where
  receiver : Receiver
  call : Option ReadCall
  calls : List Nat

/-- The device as rt_serial_open leaves it, with the calls to come. -/
def Machine.opened (calls : List Nat) : Machine :=
  { receiver := { rdne := false, dt := 0, lost := 0 }, call := none, calls }

/-- A character from the line, or the next step of the thread. -/
inductive Event
  | receive (ch : UInt8)
  | thread
  deriving DecidableEq, Repr

/-- A step of the thread: the beginning of a call, a pass of the loop of _serial_poll_rx, or its
end. The loop ends at a line feed too.
-/
def Machine.thread (m : Machine) : Machine × List Output :=
  match m.call with
  | none =>
      match m.calls with
      | [] => (m, [])
      | size :: rest => ({ m with call := some ⟨size, size, Nat.le_refl size⟩, calls := rest }, [])
  | some ⟨size, 0, _⟩ => ({ m with call := none }, [.returned size])
  | some ⟨size, length + 1, fits⟩ =>
      let (ch, receiver) := at32Getc m.receiver
      if ch = -1 then
        ({ m with receiver, call := none }, [.returned (size - (length + 1))])
      else if ch = 10 then
        ({ m with receiver, call := none }, [.data 10, .returned (size - length)])
      else
        ({ m with receiver, call := some ⟨size, length, Nat.le_of_succ_le fits⟩ },
          [.data (UInt8.ofInt ch)])

def Machine.step (m : Machine) : Event → Except Unit (Machine × List Output)
  | .receive ch => .ok ({ m with receiver := m.receiver.receive ch }, [])
  | .thread => .ok m.thread

def Machine.pending (m : Machine) : Nat :=
  match m.call with
  | none => 0
  | some call => call.size - call.length

-----------------------------------------------------------------------------------------
-- What the callers get
-----------------------------------------------------------------------------------------

def Event.isReceive : Event → Bool
  | .receive _ => true
  | .thread => false

/-- What has come in and has not been read. -/
def Receiver.unread (r : Receiver) : Nat := r.lost + r.waiting

/-- What a step does: all that is stored is 1, and for each character that came in, one is stored
or it is still unread.
-/
structure StepSpec (m : Machine) (event : Event) (next : Machine) (outputs : List Output)
    : Prop where
  ones : ∀ ch ∈ stored outputs, ch = 1
  unread
    : (stored outputs).length + next.receiver.unread
      = m.receiver.unread + event.isReceive.toNat
  count : returned outputs + next.pending = m.pending + (stored outputs).length

/-- Two machines that differ at most in the data register. -/
structure Alike (m n : Machine) : Prop where
  rdne : m.receiver.rdne = n.receiver.rdne
  lost : m.receiver.lost = n.receiver.lost
  call : m.call = n.call
  calls : m.calls = n.calls

theorem Alike.refl (m : Machine) : Alike m m := ⟨rfl, rfl, rfl, rfl⟩

theorem receive_unread (r : Receiver) (ch : UInt8)
    : (r.receive ch).unread = r.unread + 1 := by
  obtain ⟨rdne, dt, lost⟩ := r
  cases rdne <;> rfl

/-- A step of the thread, by cases on where it is and whether a character waits. -/
theorem Machine.thread_spec (m : Machine) : StepSpec m .thread m.thread.1 m.thread.2 := by
  obtain ⟨⟨rdne, dt, lost⟩, call, calls⟩ := m
  match call, calls with
  | none, [] => exact ⟨nofun, Nat.zero_add _, rfl⟩
  | none, size :: rest => exact ⟨nofun, Nat.zero_add _, (Nat.zero_add _).trans (Nat.sub_self size)⟩
  | some ⟨size, 0, _⟩, calls => exact ⟨nofun, Nat.zero_add _, rfl⟩
  | some ⟨size, length + 1, fits⟩, calls =>
      cases rdne with
      | false => exact ⟨nofun, Nat.zero_add _, rfl⟩
      | true =>
          refine
            {
              ones := fun ch one => List.mem_singleton.mp one
              unread := Nat.add_comm 1 lost
              count := ?_
            }
          change 0 + (size - length) = size - (length + 1) + 1
          omega

theorem Machine.step_spec (m : Machine) (event : Event)
    : ∃ next outputs, m.step event = .ok (next, outputs) ∧ StepSpec m event next outputs := by
  cases event with
  | receive ch =>
      refine ⟨_, [], rfl, nofun, ?_, Nat.zero_add _⟩
      exact (Nat.zero_add _).trans (receive_unread m.receiver ch)
  | thread => exact ⟨_, _, rfl, m.thread_spec⟩

/-- What the thread does next does not depend on the data register, by cases as before. -/
theorem Alike.thread {m n : Machine} (alike : Alike m n)
    : m.thread.2 = n.thread.2 ∧ Alike m.thread.1 n.thread.1 := by
  obtain ⟨⟨rdne, dt, lost⟩, call, calls⟩ := m
  obtain ⟨⟨_, dt', _⟩, _, _⟩ := n
  obtain ⟨rfl, rfl, rfl, rfl⟩ := alike
  match call, calls with
  | none, [] => exact ⟨rfl, rfl, rfl, rfl, rfl⟩
  | none, size :: rest => exact ⟨rfl, rfl, rfl, rfl, rfl⟩
  | some ⟨size, 0, _⟩, calls => exact ⟨rfl, rfl, rfl, rfl, rfl⟩
  | some ⟨size, length + 1, fits⟩, calls => cases rdne <;> exact ⟨rfl, rfl, rfl, rfl, rfl⟩

/-- Alike machines answer alike, whatever the characters are. -/
theorem Alike.step {m n next : Machine} (alike : Alike m n) {event other : Event}
    (same : event.isReceive = other.isReceive) {outputs : List Output}
    (stepped : m.step event = .ok (next, outputs))
    : ∃ after, n.step other = .ok (after, outputs) ∧ Alike next after := by
  match event, other with
  | .receive ch, .receive ch' =>
      obtain ⟨rfl, rfl⟩ := Prod.mk.inj (Except.ok.inj stepped)
      refine ⟨_, rfl, ?_⟩
      obtain ⟨⟨rdne, dt, lost⟩, call, calls⟩ := m
      obtain ⟨⟨_, dt', _⟩, _, _⟩ := n
      obtain ⟨rfl, rfl, rfl, rfl⟩ := alike
      cases rdne <;> exact ⟨rfl, rfl, rfl, rfl⟩
  | .thread, .thread =>
      obtain ⟨answered, after⟩ := alike.thread
      rw [show m.thread = (next, outputs) from Except.ok.inj stepped] at answered after
      exact ⟨n.thread.1, congrArg Except.ok (Prod.ext rfl answered.symm), after⟩

/-- So do they in every run with characters at the same places, by induction on the events. -/
theorem Alike.run {m n last : Machine} (alike : Alike m n) {events others : List Event}
    (same : events.map Event.isReceive = others.map Event.isReceive) {outputs : List Output}
    (ran : run Machine.step m events = .ok (last, outputs))
    : ∃ after, run Machine.step n others = .ok (after, outputs) := by
  induction events generalizing m n others outputs with
  | nil =>
      obtain rfl : others = [] := List.map_eq_nil_iff.mp same.symm
      obtain ⟨-, rfl⟩ := Prod.mk.inj (Except.ok.inj ran)
      exact ⟨n, rfl⟩
  | cons event events ih =>
      obtain ⟨other, others, rfl, first, rest⟩ := List.map_eq_cons_iff.mp same.symm
      obtain ⟨next, outputs, later, stepped, tail, rfl⟩ := run_cons_iff.mp ran
      obtain ⟨after, again, alike⟩ := alike.step first.symm stepped
      obtain ⟨final, done⟩ := ih alike rest.symm tail
      exact ⟨final, run_cons_iff.mpr ⟨_, _, _, again, done, rfl⟩⟩

/-- What a run stores, by induction on the events. -/
theorem run_spec (m : Machine) (events : List Event)
    : ∃ last outputs,
        run Machine.step m events = .ok (last, outputs)
        ∧ (∀ ch ∈ stored outputs, ch = 1)
        ∧ (stored outputs).length + last.receiver.unread
          = m.receiver.unread + events.countP Event.isReceive
        ∧ returned outputs + last.pending = m.pending + (stored outputs).length := by
  induction events generalizing m with
  | nil => exact ⟨m, [], rfl, nofun, Nat.zero_add _, Nat.zero_add _⟩
  | cons event events ih =>
      obtain ⟨next, first, stepped, spec⟩ := m.step_spec event
      obtain ⟨last, later, ran, ones, unread, count⟩ := ih next
      have here := spec.unread
      have returns := spec.count
      refine ⟨last, first ++ later, run_cons_iff.mpr ⟨_, _, _, stepped, ran, rfl⟩, ?_, ?_, ?_⟩
      · rw [stored_append]
        exact fun ch member => (List.mem_append.mp member).elim (spec.ones ch) (ones ch)
      · have one : (if event.isReceive = true then 1 else 0) = event.isReceive.toNat := by
          cases event.isReceive <;> rfl
        rw [stored_append, List.length_append, List.countP_cons, one]
        omega
      · rw [stored_append, List.length_append, returned_append]
        omega

/-- In every run of a device that is open without interrupts, with any calls of one thread and
characters coming in between any two passes: what the callers get is nothing but 1, and each call
returns as many as it has stored; each character is read once, is lost because one waited, or
waits at the end. The callers get the same whatever the characters are.
-/
theorem pollRead_blind (calls : List Nat) (events : List Event)
    : ∃ last outputs,
        run Machine.step (.opened calls) events = .ok (last, outputs)
        ∧ (∀ ch ∈ stored outputs, ch = 1)
        ∧ (stored outputs).length + last.receiver.unread = events.countP Event.isReceive
        ∧ returned outputs + last.pending = (stored outputs).length
        ∧ ∀ others,
            events.map Event.isReceive = others.map Event.isReceive
            → ∃ after, run Machine.step (.opened calls) others = .ok (after, outputs) := by
  obtain ⟨last, outputs, ran, ones, unread, count⟩ := run_spec (.opened calls) events
  refine ⟨last, outputs, ran, ones, unread.trans (Nat.zero_add _), count.trans (Nat.zero_add _),
    fun others same => (Alike.refl _).run same ran⟩

end At32.SerialPoll
