import At32.Lib.Transmitter
import Mathlib.Data.List.Infix

/-! The functions that send through a USART: UART_PutChar writes and waits, fputc waits and
writes. Which orders of them lose no character, whatever the speed of the processor and the line.
-/

namespace At32.UartTransmit

open Transmitter

/-- A call that sends one character. -/
inductive Call
  | uartPutChar (ch : UInt8)
  | fputc (ch : UInt8)
  deriving DecidableEq, Repr

/-- UART_SendData -/
def uartSendData (buf : List UInt8) : List Call := buf.map .uartPutChar

/-- What a call does to the registers. -/
def Call.accesses : Call → List (Access UInt8)
  | .uartPutChar ch => [.store ch, .wait]
  | .fputc ch => [.wait, .store ch]

def Call.char : Call → UInt8
  | .uartPutChar ch => ch
  | .fputc ch => ch

inductive Kind
  | putChar
  | fputc
  deriving DecidableEq, Repr

def Call.kind : Call → Kind
  | .uartPutChar _ => .putChar
  | .fputc _ => .fputc

def accesses (calls : List Call) : List (Access UInt8) := calls.flatMap Call.accesses

/-- A single UART_PutChar between two calls of fputc, and another one behind them. -/
def Hazard (kinds : List Kind) : Prop := [.fputc, .putChar, .fputc, .putChar] <:+: kinds

instance (kinds : List Kind) : Decidable (Hazard kinds) :=
  inferInstanceAs (Decidable (_ <:+: _))

theorem words_accesses (calls : List Call) : words (accesses calls) = calls.map Call.char := by
  induction calls with
  | nil => rfl
  | cons call calls ih =>
      rw [accesses, List.flatMap_cons, words, List.filterMap_append]
      change _ ++ words (accesses calls) = _
      rw [ih]
      cases call <;> rfl

-----------------------------------------------------------------------------------------
-- Phases between calls
-----------------------------------------------------------------------------------------

/-- What is known of the transmitter between two calls: it is at rest and its status has been
read; no word waits; the flag is up too early, but no word waits; or a word may wait.
-/
inductive Phase
  | settled
  | sent
  | early
  | crowded
  deriving DecidableEq, Repr

/-- The phase behind a call; none behind one that may write over a word. -/
def Phase.next : Phase → Kind → Option Phase
  | .settled, .putChar => some .settled
  | .sent, .putChar => some .early
  | .early, .putChar => some .settled
  | .crowded, .putChar => none
  | .early, .fputc => some .crowded
  | .settled, .fputc | .sent, .fputc | .crowded, .fputc => some .sent

/-- No call may write over a word. -/
def Phase.Safe : Phase → List Kind → Prop
  | _, [] => True
  | phase, kind :: kinds =>
      match phase.next kind with
      | none => False
      | some next => next.Safe kinds

/-- The kinds of calls that a phase may stand behind. -/
def Phase.history : Phase → List Kind
  | .settled => []
  | .sent => [.fputc]
  | .early => [.fputc, .putChar]
  | .crowded => [.fputc, .putChar, .fputc]

theorem hazard_cons (kind : Kind) (kinds : List Kind)
    : Hazard (kind :: kinds)
      ↔ [.fputc, .putChar, .fputc, .putChar] <+: kind :: kinds ∨ Hazard kinds :=
  List.infix_cons_iff

/-- A phase is safe exactly when what it may stand behind makes no hazard with the calls; by
induction on them.
-/
theorem Phase.safe_iff (phase : Phase) (kinds : List Kind)
    : phase.Safe kinds ↔ ¬Hazard (phase.history ++ kinds) := by
  induction kinds generalizing phase with
  | nil => cases phase <;> exact iff_of_true trivial (by decide)
  | cons kind kinds ih =>
      cases phase <;> cases kind <;>
        simp [Phase.Safe, Phase.next, ih, Phase.history, hazard_cons]

-----------------------------------------------------------------------------------------
-- What holds in every interleaving
-----------------------------------------------------------------------------------------

/-- With the flag up nothing is on its way. -/
def Honest (u : Sender UInt8) : Prop := u.complete = true → u.shift = none

/-- What is known of the transmitter between two calls. -/
def Phase.Holds (u : Sender UInt8) : Phase → Prop
  | .settled => u.complete = true ∧ u.seen = true ∧ u.shift = none ∧ u.data = none
  | .sent => Honest u ∧ u.data = none
  | .early => u.complete = true ∧ u.seen = true ∧ u.data = none
  | .crowded => Honest u

/-- What is known of it while UART_PutChar waits, in terms of the phase behind it. -/
def Phase.Awaited (u : Sender UInt8) : Phase → Prop
  | .settled => Honest u
  | .early => u.complete = true → u.data = none
  | _ => False

/-- What is known of it between the wait and the write of fputc. -/
def Phase.Granted (u : Sender UInt8) : Phase → Prop
  | .sent => Phase.settled.Holds u
  | .crowded => Phase.early.Holds u
  | _ => False

/-- The transmitter and what is left of calls that are safe. -/
inductive Sound (u : Sender UInt8) : List (Access UInt8) → Prop
  | between (phase : Phase) (calls : List Call) (holds : phase.Holds u)
    (safe : phase.Safe (calls.map Call.kind))
    : Sound u (accesses calls)
  | awaiting (phase : Phase) (calls : List Call) (awaited : phase.Awaited u)
    (safe : phase.Safe (calls.map Call.kind))
    : Sound u (.wait :: accesses calls)
  | granted (phase : Phase) (ch : UInt8) (calls : List Call) (granted : phase.Granted u)
    (safe : phase.Safe (calls.map Call.kind))
    : Sound u (.store ch :: accesses calls)

theorem Honest.shifted {u : Sender UInt8} (honest : Honest u) : Honest u.shifted := by
  obtain ⟨line, shift, data, complete, seen⟩ := u
  cases shift with
  | none => exact honest
  | some word =>
      cases data with
      | none => exact fun _ => rfl
      | some next => exact fun up => absurd (honest up) (Option.some_ne_none word)

theorem shifted_data {u : Sender UInt8} (room : u.data = none) : u.shifted.data = none := by
  obtain ⟨line, shift, data, complete, seen⟩ := u
  obtain rfl : data = none := room
  cases shift <;> rfl

theorem shifted_complete {u : Sender UInt8} (up : u.complete = true)
    : u.shifted.complete = true := by
  obtain ⟨line, shift, data, complete, seen⟩ := u
  cases shift <;> cases data <;> first | exact up | rfl

theorem shifted_seen (u : Sender UInt8) : u.shifted.seen = u.seen := by
  obtain ⟨line, shift, data, complete, seen⟩ := u
  cases shift <;> cases data <;> rfl

theorem shifted_free {u : Sender UInt8} (free : u.shift = none) : u.shifted.shift = none := by
  obtain ⟨line, shift, data, complete, seen⟩ := u
  obtain rfl : shift = none := free
  rfl

/-- The line keeps what is known, by cases on the phase. -/
theorem Phase.Holds.shifted {phase : Phase} {u : Sender UInt8} (holds : phase.Holds u)
    : phase.Holds u.shifted := by
  cases phase with
  | settled =>
      obtain ⟨up, seen, free, none⟩ := holds
      exact ⟨shifted_complete up, (shifted_seen u).trans seen, shifted_free free,
        shifted_data none⟩
  | sent => exact ⟨holds.1.shifted, shifted_data holds.2⟩
  | early =>
      obtain ⟨up, seen, none⟩ := holds
      exact ⟨shifted_complete up, (shifted_seen u).trans seen, shifted_data none⟩
  | crowded => exact Honest.shifted holds

theorem Phase.Awaited.shifted {phase : Phase} {u : Sender UInt8} (awaited : phase.Awaited u)
    : phase.Awaited u.shifted := by
  cases phase with
  | settled => exact Honest.shifted awaited
  | early =>
      obtain ⟨line, shift, data, complete, seen⟩ := u
      cases shift with
      | none => exact awaited
      | some word => cases data <;> exact fun _ => rfl
  | sent => exact awaited
  | crowded => exact awaited

theorem Phase.Granted.shifted {phase : Phase} {u : Sender UInt8} (granted : phase.Granted u)
    : phase.Granted u.shifted := by
  cases phase with
  | sent => exact @Phase.Holds.shifted .settled _ granted
  | crowded => exact @Phase.Holds.shifted .early _ granted
  | settled => exact granted
  | early => exact granted

theorem Sound.shifted {u : Sender UInt8} {left : List (Access UInt8)} (sound : Sound u left)
    : Sound u.shifted left := by
  cases sound with
  | between phase calls holds safe => exact .between phase calls holds.shifted safe
  | awaiting phase calls awaited safe => exact .awaiting phase calls awaited.shifted safe
  | granted phase ch calls granted safe => exact .granted phase ch calls granted.shifted safe

/-- The reading that finds the flag up ends the wait of UART_PutChar. -/
theorem Phase.Awaited.ended {phase : Phase} {u : Sender UInt8} (awaited : phase.Awaited u)
    (flowing : u.Flowing) (up : u.complete = true)
    : phase.Holds u.read := by
  cases phase with
  | settled => exact ⟨up, rfl, awaited up, flowing.behind (awaited up)⟩
  | early => exact ⟨up, rfl, awaited up⟩
  | sent => exact awaited.elim
  | crowded => exact awaited.elim

theorem Phase.Awaited.again {phase : Phase} {u : Sender UInt8} (awaited : phase.Awaited u)
    : phase.Awaited u.read := by
  cases phase <;> exact awaited

/-- A write behind a reading takes the flag down. -/
theorem honest_store {u : Sender UInt8} (seen : u.seen = true) (ch : UInt8)
    : Honest (u.store ch) := by
  intro up
  rw [u.store_complete, seen, Bool.not_true, Bool.and_false] at up
  cases up

/-- The write of UART_PutChar finds no word that waits, unless there may be one; by cases on the
phase.
-/
theorem Phase.Holds.putChar {phase next : Phase} {u : Sender UInt8} (holds : phase.Holds u)
    (goes : phase.next .putChar = some next) (ch : UInt8)
    : u.data = none ∧ next.Awaited (u.store ch) := by
  cases phase with
  | settled =>
      obtain ⟨_, seen, _, room⟩ := holds
      obtain rfl := Option.some.inj goes
      exact ⟨room, honest_store seen ch⟩
  | sent =>
      obtain ⟨honest, room⟩ := holds
      obtain rfl := Option.some.inj goes
      refine ⟨room, fun up => ?_⟩
      rw [u.store_complete, Bool.and_eq_true] at up
      rw [Sender.store_data (honest up.1), room]
  | early =>
      obtain ⟨_, seen, room⟩ := holds
      obtain rfl := Option.some.inj goes
      exact ⟨room, honest_store seen ch⟩
  | crowded => cases goes

/-- The wait of fputc ends with room for a word, by cases on the phase. -/
theorem Phase.Holds.fputc {phase next : Phase} {u : Sender UInt8} (holds : phase.Holds u)
    (flowing : u.Flowing) (goes : phase.next .fputc = some next) (up : u.complete = true)
    : next.Granted u.read := by
  have honestly (honest : Honest u) : Phase.sent.Granted u.read :=
    ⟨up, rfl, honest up, flowing.behind (honest up)⟩
  cases phase with
  | settled =>
      obtain ⟨_, _, free, _⟩ := holds
      obtain rfl := Option.some.inj goes
      exact honestly fun _ => free
  | sent =>
      obtain rfl := Option.some.inj goes
      exact honestly holds.1
  | early =>
      obtain ⟨_, _, room⟩ := holds
      obtain rfl := Option.some.inj goes
      exact ⟨up, rfl, room⟩
  | crowded =>
      obtain rfl := Option.some.inj goes
      exact honestly holds

/-- A reading with the flag down changes nothing that is known. -/
theorem Phase.Holds.again {phase : Phase} {u : Sender UInt8} (holds : phase.Holds u)
    (down : u.complete = false)
    : phase.Holds u.read := by
  cases phase with
  | settled => exact absurd (holds.1.symm.trans down) Bool.noConfusion
  | sent => exact holds
  | early => exact absurd (holds.1.symm.trans down) Bool.noConfusion
  | crowded => exact holds

theorem Phase.Granted.written {phase : Phase} {u : Sender UInt8} (granted : phase.Granted u)
    (ch : UInt8)
    : u.data = none ∧ phase.Holds (u.store ch) := by
  cases phase with
  | sent =>
      obtain ⟨_, seen, free, room⟩ := granted
      exact ⟨room, honest_store seen ch, (Sender.store_data free ch).trans room⟩
  | crowded =>
      obtain ⟨_, seen, room⟩ := granted
      exact ⟨room, honest_store seen ch⟩
  | settled => exact granted.elim
  | early => exact granted.elim

theorem safe_cons {phase : Phase} {kind : Kind} {kinds : List Kind}
    (safe : phase.Safe (kind :: kinds))
    : ∃ next, phase.next kind = some next ∧ next.Safe kinds := by
  unfold Phase.Safe at safe
  split at safe
  · exact safe.elim
  · exact ⟨_, ‹_›, safe⟩

/-- A reading of a waiting loop, with the flag up or down. -/
theorem step_wait {u : Sender UInt8} {left : List (Access UInt8)}
    {next : State UInt8} (same : (State.mk u (.wait :: left)).step .access = next)
    : u.complete = true ∧ next = { sender := u.read, left }
      ∨ u.complete = false ∧ next = { sender := u.read, left := .wait :: left } := by
  obtain rfl := same
  cases up : u.complete with
  | true => exact .inl ⟨rfl, by simp [State.step, up]⟩
  | false => exact .inr ⟨rfl, by simp [State.step, up]⟩

/-- An access keeps what is known and loses nothing, by cases on where it is in its call. -/
theorem Sound.access {s next : State UInt8} (sound : Sound s.sender s.left)
    (flowing : s.sender.Flowing) (taken : s.step .access = next)
    : Sound next.sender next.left ∧ next.held = s.held := by
  obtain ⟨u, left⟩ := s
  cases sound with
  | between phase calls holds safe =>
      cases calls with
      | nil =>
          obtain rfl := taken
          exact ⟨.between phase [] holds safe, rfl⟩
      | cons call calls =>
          obtain ⟨behind, goes, later⟩ := safe_cons safe
          cases call with
          | uartPutChar ch =>
              obtain rfl := taken
              obtain ⟨room, awaited⟩ := holds.putChar goes ch
              exact ⟨.awaiting behind calls awaited later, held_write room ch _⟩
          | fputc ch =>
              obtain ⟨up, rfl⟩ | ⟨down, rfl⟩ := step_wait taken
              · exact ⟨.granted behind ch calls (holds.fputc flowing goes up) later, rfl⟩
              · exact ⟨.between phase (.fputc ch :: calls) (holds.again down) safe, rfl⟩
  | awaiting phase calls awaited safe =>
      obtain ⟨up, rfl⟩ | ⟨down, rfl⟩ := step_wait taken
      · exact ⟨.between phase calls (awaited.ended flowing up) safe, rfl⟩
      · exact ⟨.awaiting phase calls awaited.again safe, rfl⟩
  | granted phase ch calls granted safe =>
      obtain rfl := taken
      obtain ⟨room, holds⟩ := granted.written ch
      exact ⟨.between phase calls holds safe, held_write room ch _⟩

/-- Safe calls lose nothing in any interleaving; by induction on the events. -/
theorem Sound.run {s : State UInt8} (sound : Sound s.sender s.left)
    (flowing : s.sender.Flowing) (events : List Event)
    : (s.run events).held = s.held := by
  induction events generalizing s with
  | nil => rfl
  | cons event events ih =>
      have next : Sound (s.step event).sender (s.step event).left
          ∧ (s.step event).held = s.held := by
        cases event with
        | shifted => exact ⟨sound.shifted, held_shift s⟩
        | access => exact sound.access flowing rfl
      rw [run_cons, ih next.1 (step_flowing flowing event), next.2]

-----------------------------------------------------------------------------------------
-- What can be lost
-----------------------------------------------------------------------------------------

/-- The transmitter between two calls, where the line was as slow or as fast as it takes. -/
def Phase.worst (line : List UInt8) (first second : UInt8) : Phase → Sender UInt8
  | .settled => { line, shift := none, data := none, complete := true, seen := true }
  | .sent => { line, shift := none, data := none, complete := true, seen := false }
  | .early => { line, shift := some first, data := none, complete := true, seen := true }
  | .crowded =>
      { line, shift := some first, data := some second, complete := false, seen := false }

/-- Each call can lead to the worst of the phase behind it, by cases on the phase and the call. -/
theorem Phase.worst_next (phase : Phase) (call : Call) {next : Phase}
    (goes : phase.next call.kind = some next) (line : List UInt8) (first second : UInt8)
    (calls : List Call)
    : ∃ events line' first' second',
        (State.mk (phase.worst line first second) (accesses (call :: calls))).run events
          = { sender := next.worst line' first' second', left := accesses calls }
        ∧ (next.worst line' first' second').held
          = (phase.worst line first second).held ++ [call.char] := by
  cases call with
  | uartPutChar ch =>
      cases phase with
      | settled =>
          obtain rfl := Option.some.inj goes
          exact ⟨[.access, .shifted, .access], line ++ [ch], ch, ch, rfl, by
            simp [Phase.worst, Sender.held, Call.char]⟩
      | sent =>
          obtain rfl := Option.some.inj goes
          exact ⟨[.access, .access], line, ch, ch, rfl, by
            simp [Phase.worst, Sender.held, Call.char]⟩
      | early =>
          obtain rfl := Option.some.inj goes
          exact ⟨[.access, .shifted, .shifted, .access], line ++ [first] ++ [ch], ch, ch, rfl, by
            simp [Phase.worst, Sender.held, Call.char]⟩
      | crowded => cases goes
  | fputc ch =>
      cases phase with
      | settled =>
          obtain rfl := Option.some.inj goes
          exact ⟨[.access, .access, .shifted], line ++ [ch], ch, ch, rfl, by
            simp [Phase.worst, Sender.held, Call.char]⟩
      | sent =>
          obtain rfl := Option.some.inj goes
          exact ⟨[.access, .access, .shifted], line ++ [ch], ch, ch, rfl, by
            simp [Phase.worst, Sender.held, Call.char]⟩
      | early =>
          obtain rfl := Option.some.inj goes
          exact ⟨[.access, .access], line, first, ch, rfl, by
            simp [Phase.worst, Sender.held, Call.char]⟩
      | crowded =>
          obtain rfl := Option.some.inj goes
          exact ⟨[.shifted, .shifted, .access, .access, .shifted],
            line ++ [first] ++ [second] ++ [ch], ch, ch, rfl, by
              simp [Phase.worst, Sender.held, Call.char]⟩

/-- What a transmitter and calls are to send. -/
theorem held_accesses (u : Sender UInt8) (calls : List Call)
    : State.held { sender := u, left := accesses calls } = u.held ++ calls.map Call.char := by
  rw [State.held, words_accesses]

/-- Calls that are not safe lose a character in some interleaving; by induction on the calls. -/
theorem Phase.worst_loses (phase : Phase) (line : List UInt8) (first second : UInt8)
    (calls : List Call) (risky : ¬phase.Safe (calls.map Call.kind))
    : ∃ events,
        ((State.mk (phase.worst line first second) (accesses calls)).run events).held
          ≠ (phase.worst line first second).held ++ calls.map Call.char := by
  induction calls generalizing phase line first second with
  | nil => exact absurd trivial risky
  | cons call calls ih =>
      cases goes : phase.next call.kind with
      | some next =>
          obtain ⟨events, line', first', second', ran, held⟩ :=
            phase.worst_next call goes line first second calls
          have later : ¬next.Safe (calls.map Call.kind) := by
            intro safe
            rw [List.map_cons, Phase.Safe, goes] at risky
            exact risky safe
          obtain ⟨more, lost⟩ := ih next line' first' second' later
          refine ⟨events ++ more, ?_⟩
          rw [run_append, ran, List.map_cons, List.append_cons, ← held]
          exact lost
      | none =>
          -- the write of UART_PutChar comes upon a word that waits
          cases call with
          | fputc ch => cases phase <;> cases goes
          | uartPutChar ch =>
              cases phase with
              | crowded =>
                  refine ⟨[.access], fun kept => ?_⟩
                  have short := @Sender.length_store_over _ (Phase.crowded.worst line first second)
                    first second rfl rfl ch
                  have same := congrArg List.length kept
                  change (State.held
                    {
                      sender := (Phase.crowded.worst line first second).store ch
                      left := .wait :: accesses calls
                    }).length = _ at same
                  rw [State.held, List.length_append, short, List.length_append, List.length_map,
                    List.length_cons] at same
                  change _ + (words (accesses calls)).length = _ at same
                  rw [words_accesses, List.length_map] at same
                  omega
              | settled => cases goes
              | sent => cases goes
              | early => cases goes

-----------------------------------------------------------------------------------------
-- Whole texts
-----------------------------------------------------------------------------------------

/-- The phase of a transmitter at rest. -/
def start (seen : Bool) : Phase := if seen then .settled else .sent

theorem start_rest (line : List UInt8) (seen : Bool)
    : (start seen).worst line 0 0 = Sender.rest line seen
      ∧ (start seen).Holds (Sender.rest line seen) := by
  cases seen with
  | true => exact ⟨rfl, rfl, rfl, rfl, rfl⟩
  | false => exact ⟨rfl, fun _ => rfl, rfl⟩

theorem accesses_length (calls : List Call) : (accesses calls).length = 2 * calls.length := by
  induction calls with
  | nil => rfl
  | cons call calls ih =>
      rw [accesses, List.flatMap_cons, List.length_append]
      change _ + (accesses calls).length = _
      rw [ih, List.length_cons]
      cases call <;> simp [Call.accesses] <;> omega

/-- With the time for two words everything is shifted out. -/
theorem shifted_twice {u : Sender UInt8} (flowing : u.Flowing)
    : u.shifted.shifted.held = u.shifted.shifted.line := by
  obtain ⟨line, shift, data, complete, seen⟩ := u
  cases shift with
  | none =>
      obtain rfl : data = none := flowing.behind rfl
      simp [Sender.shifted, Sender.held]
  | some word => cases data <;> simp [Sender.shifted, Sender.held]

/-- Whether a character can get lost. -/
theorem held_iff_noHazard (line : List UInt8) (seen : Bool) (calls : List Call)
    : (∀ events,
        ((State.mk (Sender.rest line seen) (accesses calls)).run events).held
          = line ++ calls.map Call.char)
      ↔ ¬Hazard ((if seen then [] else [.fputc]) ++ calls.map Call.kind) := by
  obtain ⟨worst, holds⟩ := start_rest line seen
  have held : (Sender.rest line seen).held ++ calls.map Call.char
      = line ++ calls.map Call.char := by
    rw [Sender.held_rest]
  have history : (if seen then [] else [.fputc]) ++ calls.map Call.kind
      = (start seen).history ++ calls.map Call.kind := by
    cases seen <;> rfl
  rw [history, ← Phase.safe_iff, ← held]
  constructor
  · intro kept
    by_contra risky
    obtain ⟨events, lost⟩ := (start seen).worst_loses line 0 0 calls risky
    rw [worst] at lost
    exact lost (kept events)
  · intro safe events
    have kept := @Sound.run (State.mk (Sender.rest line seen) (accesses calls))
      (.between (start seen) calls holds safe) (.rest line seen) events
    rw [kept, held_accesses]

theorem uartSendData_chars (buf : List UInt8) : (uartSendData buf).map Call.char = buf := by
  rw [uartSendData, List.map_map]
  exact List.map_id buf

/-- UART_SendData calls UART_PutChar only, and a hazard needs two calls of fputc. -/
theorem uartSendData_noHazard (seen : Bool) (buf : List UInt8)
    : ¬Hazard ((if seen then [] else [.fputc]) ++ (uartSendData buf).map Call.kind) := by
  intro hazard
  have counted := hazard.sublist.count_le .fputc
  have none : ((uartSendData buf).map Call.kind).count .fputc = 0 := by
    refine List.count_eq_zero_of_not_mem fun member => ?_
    obtain ⟨call, made, kind⟩ := List.mem_map.mp member
    obtain ⟨ch, _, rfl⟩ := List.mem_map.mp made
    cases kind
  rw [List.count_append, none] at counted
  cases seen <;> exact absurd counted (by decide)

/-- What calls send on a transmitter at rest: no character is lost in any interleaving of the
processor and the line exactly when there is no hazard, where a status that has not been read
counts as a call of fputc before them, and so none of UART_SendData; and the calls end, and
everything is shifted out, once the line has the time for two characters before as many accesses
as the calls take.
-/
theorem transmit_lossless_iff (line : List UInt8) (seen : Bool) (calls : List Call)
    : ((∀ events,
          ((State.mk (Sender.rest line seen) (accesses calls)).run events).held
            = line ++ calls.map Call.char)
        ↔ ¬Hazard ((if seen then [] else [.fputc]) ++ calls.map Call.kind))
      ∧ (∀ buf,
        calls = uartSendData buf
        → ∀ events,
            ((State.mk (Sender.rest line seen) (accesses calls)).run events).held = line ++ buf)
      ∧ ∀ rounds : List (List Event),
          (∀ round ∈ rounds, [Event.shifted, .shifted, .access].Sublist round)
          → 2 * calls.length ≤ rounds.length
          → ∃ last,
              (State.mk (Sender.rest line seen) (accesses calls)).run
                  (rounds.flatten ++ [.shifted, .shifted])
                = { sender := last, left := [] }
              ∧ last.held = last.line := by
  have lossless := held_iff_noHazard line seen calls
  refine ⟨lossless, fun buf same events => ?_, fun rounds fair enough => ?_⟩
  · have kept := lossless.mpr (by rw [same]; exact uartSendData_noHazard seen buf) events
    rw [kept, same, uartSendData_chars]
  · have flowing := Sender.Flowing.rest line seen
    have count : (accesses calls).length ≤ rounds.length := by
      rw [accesses_length]
      exact enough
    have ended := @run_ends _ (State.mk (Sender.rest line seen) (accesses calls)) flowing rounds
      fair count
    have later := @run_flowing _ (State.mk (Sender.rest line seen) (accesses calls)) flowing
      rounds.flatten
    rw [run_append]
    generalize (State.mk (Sender.rest line seen) (accesses calls)).run rounds.flatten = s
      at ended later ⊢
    obtain ⟨u, left⟩ := s
    obtain rfl : left = [] := ended
    exact ⟨u.shifted.shifted, rfl, shifted_twice later⟩

end At32.UartTransmit
