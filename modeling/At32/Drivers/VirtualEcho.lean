import At32.Drivers.VirtualUart
import Mathlib.Data.List.Forall2
import Mathlib.Data.List.Induction

/-! The main loop of the virtual UART: the lines that it receives are sent back. -/

namespace At32.VirtualUart

/-- The content of uart_read_buf, which is empty at first. -/
def Receiver.buffer (size : Nat) (s : Receiver) : List UInt8 :=
  s.written.foldl (fun buf write => buf.set write.1 write.2) (List.replicate size 0)

/-- The characters that uartsend_data hands to virtual_serial; none where it reads behind the
buffer.
-/
def uartsendData : List UInt8 → Option (List UInt8)
  | [] => none
  | value :: rest => if value = 0 then some [] else (uartsendData rest).map (value :: ·)

/-- The receiver, and what each call of uartsend_data has sent. -/
structure Echo where
  receiver : Receiver
  sent : List (List UInt8)
  deriving DecidableEq, Repr

/-- One pass of the main loop. -/
def Echo.loop (size : Nat) (s : Echo) : Option Echo :=
  if s.receiver.status &&& UART_STATUS_NLINE ≠ 0 then do
    let line ← uartsendData (s.receiver.buffer size)
    return { receiver := { s.receiver with status := 0 }, sent := s.sent ++ [line] }
  else
    some s

/-- A byte on the line, with what is pending then, and how often the main loop runs before the
next one.
-/
structure Arrival where
  pnd : BitVec 32
  ret : UInt8
  loops : Nat
  deriving DecidableEq, Repr

def Echo.loops (size : Nat) : Nat → Echo → Option Echo
  | 0, s => some s
  | loops + 1, s => (s.loop size).bind (Echo.loops size loops)

/-- The interrupt of a byte. -/
def Echo.receive (size : Nat) (s : Echo) (arrival : Arrival) : Echo :=
  { s with
    receiver := exti1510IrqHandler size arrival.ret { s.receiver with pnd := arrival.pnd } }

def Echo.step (size : Nat) (s : Echo) (arrival : Arrival) : Option Echo :=
  Echo.loops size arrival.loops (s.receive size arrival)

def Echo.run (size : Nat) : List Arrival → Echo → Option Echo
  | [], s => some s
  | arrival :: rest, s => (s.step size arrival).bind (Echo.run size rest)

def Echo.start : Echo := { receiver := .start, sent := [] }

/-- A line that arrives with the end of the line; the main loop runs behind it. -/
structure Carries (line : List UInt8) (arrivals : List Arrival) : Prop where
  bytes : arrivals.map Arrival.ret = line ++ [0x0d, 0x0a]
  served : ∀ last, arrivals.getLast? = some last → 0 < last.loops

/-- A line without the characters that end one, and with room for its terminator. -/
structure Plain (size : Nat) (line : List UInt8) : Prop where
  noReturn : (0x0d : UInt8) ∉ line
  noNul : (0 : UInt8) ∉ line
  fits : line.length < size

-----------------------------------------------------------------------------------------
-- Buffers
-----------------------------------------------------------------------------------------

theorem Receiver.buffer_append {size : Nat} {s next : Receiver} {index : Nat} {value : UInt8}
    (new : next.written = s.written ++ [(index, value)])
    : next.buffer size = (s.buffer size).set index value := by
  rw [Receiver.buffer, new, List.foldl_append]
  rfl

theorem Receiver.buffer_length (size : Nat) (s : Receiver) : (s.buffer size).length = size := by
  unfold Receiver.buffer
  induction s.written using List.reverseRecOn with
  | nil => exact List.length_replicate
  | append_singleton written write ih =>
      rw [List.foldl_append, List.foldl_cons, List.foldl_nil, List.length_set, ih]

/-- A character behind the first ones. -/
theorem take_set_succ {α : Type*} {buf : List α} {k : Nat} (inside : k < buf.length) (value : α)
    : (buf.set k value).take (k + 1) = buf.take k ++ [value] := by
  have here : k < (buf.set k value).length := by rwa [List.length_set]
  rw [List.take_succ_eq_append_getElem here, List.take_set_of_le (Nat.le_refl k),
    List.getElem_set_self]

/-- What is sent is the line in front of the first terminator, whatever is behind it. -/
theorem uartsendData_line {line : List UInt8} (noNul : (0 : UInt8) ∉ line) (rest : List UInt8)
    : uartsendData (line ++ 0 :: rest) = some line := by
  induction line with
  | nil => exact if_pos rfl
  | cons value line ih =>
      have notNul : value ≠ 0 := fun nul => noNul (nul ▸ .head _)
      have later := ih fun member => noNul (.tail _ member)
      rw [List.cons_append, uartsendData, if_neg notNul, later]
      rfl

-----------------------------------------------------------------------------------------
-- A line
-----------------------------------------------------------------------------------------

/-- A receiver that has taken the first characters of a line. -/
structure Receiver.Holds (size : Nat) (line : List UInt8) (s : Receiver) : Prop where
  count : s.status.toNat = line.length
  stored : (s.buffer size).take line.length = line
  inside : s.Inside size

/-- A receiver with a terminated line in its buffer. -/
structure Receiver.Terminated (size : Nat) (line : List UInt8) (s : Receiver) : Prop where
  stored : ∃ rest, s.buffer size = line ++ 0 :: rest
  inside : s.Inside size

theorem Receiver.Holds.char {size : Nat} (fits : size ≤ 0x4000) {line : List UInt8}
    {s : Receiver} (holds : s.Holds size line) (pnd : BitVec 32) {ret : UInt8}
    (notReturn : ret ≠ 0x0d) (room : line.length + 1 < size)
    : (exti1510IrqHandler size ret { s with pnd }).Holds size (line ++ [ret]) := by
  have count : s.status.toNat < 0x4000 := by
    rw [holds.count]
    omega
  rcases exti1510IrqHandler_cases size ret { s with pnd } with
    ⟨full, -⟩ | ⟨entered, -⟩ | ⟨isReturn, -⟩ | ⟨-, -, status, new⟩
  · exact absurd (Nat.lt_of_lt_of_le count (Nat.le_trans (by decide) full)) (Nat.lt_irrefl _)
  · exact absurd (Nat.lt_of_lt_of_le count entered) (Nat.lt_irrefl _)
  · exact absurd isReturn notReturn
  · change _ = s.written ++ [(s.status.toNat, ret)] at new
    have notOver : ¬(s.status.toNat + 1) % 0x4000 > size := by
      rw [holds.count]
      omega
    rw [if_neg notOver] at status
    rw [holds.count] at new
    exact
      {
        count := by rw [status, add_one_toNat count, holds.count, List.length_append]; rfl
        stored := by
          rw [buffer_append new, List.length_append, List.length_singleton,
            take_set_succ (by rw [s.buffer_length]; omega), holds.stored]
        inside := (inside_append_iff holds.inside new).mpr (by omega)
      }

/-- The end of a line terminates it. -/
theorem Receiver.Holds.carriageReturn {size : Nat} (fits : size ≤ 0x4000) {line : List UInt8}
    {s : Receiver} (holds : s.Holds size line) (pnd : BitVec 32) (room : line.length < size)
    : let next := exti1510IrqHandler size 0x0d { s with pnd }
      next.status.toNat = line.length + 0x4000 ∧ next.Terminated size line := by
  have count : s.status.toNat < 0x4000 := by
    rw [holds.count]
    omega
  rcases exti1510IrqHandler_cases size 0x0d { s with pnd } with
    ⟨full, -⟩ | ⟨entered, -⟩ | ⟨-, -, status, new⟩ | ⟨notReturn, -⟩
  · exact absurd (Nat.lt_of_lt_of_le count (Nat.le_trans (by decide) full)) (Nat.lt_irrefl _)
  · exact absurd (Nat.lt_of_lt_of_le count entered) (Nat.lt_irrefl _)
  · change _ = s.written ++ [(s.status.toNat, 0)] at new
    rw [holds.count] at new
    refine ⟨by rw [status, or_enter_toNat count, holds.count], ?_, ?_⟩
    · refine ⟨(s.buffer size).drop (line.length + 1), ?_⟩
      rw [buffer_append new, List.set_eq_take_append_cons_drop,
        if_pos (by rw [s.buffer_length]; exact room), holds.stored]
    · exact (inside_append_iff holds.inside new).mpr room
  · exact absurd rfl notReturn

/-- The line feed behind it leaves the line to the main loop. -/
theorem Receiver.Terminated.lineFeed {size : Nat} {line : List UInt8} {s : Receiver}
    (terminated : s.Terminated size line) (pnd : BitVec 32) (entered : 0x4000 ≤ s.status.toNat)
    (notFull : s.status.toNat < 0x8000)
    : let next := exti1510IrqHandler size 0x0a { s with pnd }
      0x8000 ≤ next.status.toNat ∧ next.Terminated size line := by
  rcases exti1510IrqHandler_cases size 0x0a { s with pnd } with
    ⟨full, -⟩ | ⟨-, status, same⟩ | ⟨-, count, -⟩ | ⟨-, count, -⟩
  · exact absurd (Nat.lt_of_lt_of_le notFull full) (Nat.lt_irrefl _)
  · rw [if_pos rfl] at status
    refine ⟨?_, ?_, inside_of_written terminated.inside same⟩
    · rw [status]
      exact le_or_nline _
    · rw [Receiver.buffer, same]
      exact terminated.stored
  · exact absurd (Nat.lt_of_lt_of_le count entered) (Nat.lt_irrefl _)
  · exact absurd (Nat.lt_of_lt_of_le count entered) (Nat.lt_irrefl _)

-----------------------------------------------------------------------------------------
-- The main loop
-----------------------------------------------------------------------------------------

/-- Nothing is sent before the line is complete. -/
theorem Echo.loops_waiting {size : Nat} {s : Echo} (notFull : s.receiver.status.toNat < 0x8000)
    (loops : Nat)
    : Echo.loops size loops s = some s := by
  have once : s.loop size = some s := if_neg (not_not_intro ((nline_iff _).mpr notFull))
  induction loops with
  | zero => rfl
  | succ loops ih => rw [Echo.loops, once, Option.bind_some, ih]

/-- A complete line is sent once, and the status is reset. -/
theorem Echo.loops_full {size : Nat} {s : Echo} {line : List UInt8}
    (full : 0x8000 ≤ s.receiver.status.toNat) (terminated : s.receiver.Terminated size line)
    (noNul : (0 : UInt8) ∉ line) {loops : Nat} (served : 0 < loops)
    : Echo.loops size loops s
      = some { receiver := { s.receiver with status := 0 }, sent := s.sent ++ [line] } := by
  obtain ⟨loops, rfl⟩ := Nat.exists_eq_add_one_of_ne_zero (Nat.ne_of_gt served)
  obtain ⟨rest, stored⟩ := terminated.stored
  have complete : s.receiver.status &&& UART_STATUS_NLINE ≠ 0 := fun clear =>
    Nat.not_lt_of_le full ((nline_iff _).mp clear)
  rw [Echo.loops, Echo.loop, if_pos complete, stored, uartsendData_line noNul]
  have zero : (0 : UInt16).toNat < 0x8000 := by decide
  exact loops_waiting zero loops

theorem Echo.run_waiting {size : Nat} {s : Echo} {arrival : Arrival}
    (notFull : (s.receive size arrival).receiver.status.toNat < 0x8000) (rest : List Arrival)
    : Echo.run size (arrival :: rest) s = Echo.run size rest (s.receive size arrival) := by
  rw [Echo.run, Echo.step, loops_waiting notFull, Option.bind_some]

/-- Between two lines. -/
structure Echo.Ready (size : Nat) (s : Echo) : Prop where
  status : s.receiver.status = 0
  inside : s.receiver.Inside size

/-- CR and LF behind a line: the main loop sends it. -/
theorem Echo.run_lineEnd {size : Nat} (fits : size ≤ 0x4000) {line : List UInt8}
    (plain : Plain size line) {s : Echo} (holds : s.receiver.Holds size line)
    {arrivals : List Arrival} (carries : Carries [] arrivals)
    : ∃ next,
        Echo.run size arrivals s = some next
        ∧ next.Ready size
        ∧ next.sent = s.sent ++ [line] := by
  have room := plain.fits
  obtain ⟨first, _, rfl, isReturn, bytes⟩ := List.map_eq_cons_iff.mp carries.bytes
  obtain ⟨second, _, rfl, isFeed, none⟩ := List.map_eq_cons_iff.mp bytes
  obtain rfl := List.map_eq_nil_iff.mp none
  have ⟨status, terminated⟩ := holds.carriageReturn fits first.pnd room
  have ⟨full, complete⟩ :=
    terminated.lineFeed second.pnd (by rw [status]; omega) (by rw [status]; omega)
  rw [← isReturn] at status terminated full complete
  rw [← isFeed] at full complete
  have served := carries.served second rfl
  have sent := @Echo.loops_full size ((s.receive size first).receive size second) line full
    complete plain.noNul second.loops served
  have waiting : (s.receive size first).receiver.status.toNat < 0x8000 := by
    refine Nat.lt_of_le_of_lt (Nat.le_of_eq status) ?_
    omega
  have ran : Echo.run size [first, second] s
      = some
          { receiver :=
              { ((s.receive size first).receive size second).receiver with status := 0 }
            sent := s.sent ++ [line] } := by
    rw [run_waiting waiting, Echo.run, Echo.step, sent]
    rfl
  exact ⟨_, ran, ⟨rfl, complete.inside⟩, rfl⟩

/-- The rest of a line arrives; by induction on its characters, of which the receiver holds
those before.
-/
theorem Echo.run_rest {size : Nat} (fits : size ≤ 0x4000) {front rest : List UInt8}
    (plain : Plain size (front ++ rest)) {s : Echo} (holds : s.receiver.Holds size front)
    {arrivals : List Arrival} (carries : Carries rest arrivals)
    : ∃ next,
        Echo.run size arrivals s = some next
        ∧ next.Ready size
        ∧ next.sent = s.sent ++ [front ++ rest] := by
  have room := plain.fits
  induction rest generalizing front s arrivals with
  | nil =>
      rw [List.append_nil] at plain ⊢
      exact run_lineEnd fits plain holds carries
  | cons char rest ih =>
      obtain ⟨arrival, later, rfl, rfl, bytes⟩ := List.map_eq_cons_iff.mp carries.bytes
      have notReturn : arrival.ret ≠ 0x0d := fun isReturn =>
        plain.noReturn (isReturn ▸ List.mem_append_right front (.head rest))
      rw [List.length_append, List.length_cons] at room
      have next := holds.char fits arrival.pnd notReturn (by omega)
      have waiting : (s.receive size arrival).receiver.status.toNat < 0x8000 := by
        refine Nat.lt_of_le_of_lt (Nat.le_of_eq next.count) ?_
        rw [List.length_append, List.length_singleton]
        omega
      have more : later ≠ [] := fun none => by
        rw [none] at bytes
        exact absurd bytes.symm (List.append_ne_nil_of_right_ne_nil _ (List.cons_ne_nil _ _))
      have carriesLater : Carries rest later :=
        {
          bytes
          served := fun last isLast => carries.served last (by
            rw [List.getLast?_cons_of_ne_nil more]
            exact isLast)
        }
      have whole : front ++ arrival.ret :: rest = front ++ [arrival.ret] ++ rest :=
        (List.append_assoc front [arrival.ret] rest).symm
      rw [whole] at plain ⊢
      obtain ⟨last, ran, ready, sent⟩ :=
        @ih (front ++ [arrival.ret]) plain (s.receive size arrival) next later carriesLater
          plain.fits
      exact ⟨last, (run_waiting waiting later).trans ran, ready, sent⟩

-----------------------------------------------------------------------------------------
-- Lines
-----------------------------------------------------------------------------------------

theorem Echo.run_append (size : Nat) (left right : List Arrival) (s : Echo)
    : Echo.run size (left ++ right) s = (Echo.run size left s).bind (Echo.run size right) := by
  induction left generalizing s with
  | nil => rfl
  | cons arrival left ih =>
      rw [List.cons_append, Echo.run, Echo.run, Option.bind_assoc]
      exact congrArg _ (funext ih)

/-- Lines are sent one by one; by induction on the lines. -/
theorem Echo.run_lines {size : Nat} (fits : size ≤ 0x4000) {lines : List (List UInt8)}
    {arrivals : List (List Arrival)} (carried : List.Forall₂ Carries lines arrivals)
    (plain : ∀ line ∈ lines, Plain size line) {s : Echo} (ready : s.Ready size)
    : ∃ next,
        Echo.run size arrivals.flatten s = some next
        ∧ next.Ready size
        ∧ next.sent = s.sent ++ lines := by
  induction carried generalizing s with
  | nil => exact ⟨s, rfl, ready, (List.append_nil _).symm⟩
  | @cons line arrived lines arrivals carries _ ih =>
      have holds : s.receiver.Holds size [] :=
        {
          count := by rw [ready.status]; rfl
          stored := rfl
          inside := ready.inside
        }
      obtain ⟨middle, ran, readyMiddle, sent⟩ :=
        @run_rest size fits [] line (plain line (.head _)) s holds arrived carries
      obtain ⟨last, ranRest, readyLast, sentRest⟩ :=
        ih (fun other later => plain other (.tail _ later)) readyMiddle
      refine ⟨last, ?_, readyLast, ?_⟩
      · rw [List.flatten_cons, run_append, ran, Option.bind_some, ranRest]
      · rw [sentRest, sent, List.append_assoc]
        rfl

/-- Behind any number of lines each call of uartsend_data has sent its line and nothing else, the
status is zero again, and no character has been written behind the buffer; whatever is pending
and however often the main loop runs between the bytes.
-/
theorem echo_lines (size : Nat) (fits : size ≤ 0x4000) (lines : List (List UInt8))
    (plain : ∀ line ∈ lines, Plain size line) (arrivals : List (List Arrival))
    (carried : List.Forall₂ Carries lines arrivals) (served : Nat)
    : ∃ s,
        Echo.run size (arrivals.take served).flatten .start = some s
        ∧ s.sent = lines.take served
        ∧ s.receiver.status = 0
        ∧ s.receiver.Inside size := by
  have start : Echo.Ready size .start :=
    {
      status := rfl
      inside := fun _ none => absurd none List.not_mem_nil
    }
  obtain ⟨s, ran, ready, sent⟩ :=
    Echo.run_lines fits (List.forall₂_take served carried)
      (fun line member => plain line (List.mem_of_mem_take member)) start
  exact ⟨s, ran, sent, ready.status, ready.inside⟩

/-- A line of two characters and a shorter one, as they arrive. -/
def twoLines : List (List Arrival) :=
  [[⟨0x800, 0x68, 0⟩, ⟨0x800, 0x69, 3⟩, ⟨0x800, 0x0d, 1⟩, ⟨0x800, 0x0a, 2⟩],
    [⟨0x800, 0x6a, 0⟩, ⟨0x800, 0x0d, 0⟩, ⟨0x800, 0x0a, 1⟩]]

theorem echo_twoLines
    : ∃ s,
        Echo.run 50 (twoLines.take 2).flatten .start = some s
        ∧ s.sent = [[0x68, 0x69], [0x6a]].take 2
        ∧ s.receiver.status = 0
        ∧ s.receiver.Inside 50 := by
  refine echo_lines 50 (by decide) [[0x68, 0x69], [0x6a]] ?_ twoLines ?_ 2
  · intro line member
    simp only [List.mem_cons, List.not_mem_nil, or_false] at member
    rcases member with rfl | rfl
    · exact ⟨by decide, by decide, by decide⟩
    · exact ⟨by decide, by decide, by decide⟩
  · refine .cons ⟨rfl, fun last isLast => ?_⟩ (.cons ⟨rfl, fun last isLast => ?_⟩ .nil)
    · cases isLast
      decide
    · cases isLast
      decide

end At32.VirtualUart
