import At32.Drivers.VirtualEcho
import At32.Drivers.VirtualSampling

/-! Two boards with the virtual UART: one sends its buffer over a line, and the interrupt of the
other one is raised by the falling edges of the line.
-/

namespace At32.VirtualUart

open Waveform

/-- What uartsend_data puts on the line: each character by virtual_serial, and the stop bit on
until the next call.
-/
def transmit (delays : Delays) : List (UInt8 × Nat) → List (Bool × Nat)
  | [] => []
  | (b, gap) :: rest =>
      virtualSerial delays b.toUInt16 ++ (true, gap) :: transmit delays rest

/-- The times that an interrupt needs: from the edge to the first delay, around each reading,
and behind the last one.
-/
structure Interrupt where
  latency : Nat
  overhead : Nat → Overhead
  tail : Nat

/-- When an interrupt that reads a byte has returned. -/
def Interrupt.returns (delays : Delays) (line : Nat → Bool) (interrupt : Interrupt) (edge : Nat)
    : Nat :=
  let start := edge + interrupt.latency + delays.uartDelayusAgain.toNat
  ((List.range 8).foldl (receiveBit delays line interrupt.overhead) (start, 0)).1
    + interrupt.tail

/-- The receiving board: an interrupt is raised by the next falling edge, and reads a byte unless
a line waits to be taken. Edges during the interrupt are cleared at its end.
-/
inductive Serves (size : Nat) (delays : Delays) (line : Nat → Bool)
    : Nat → Receiver → List Interrupt → Receiver → Prop
  | quiet {time : Nat} {s : Receiver} (silent : ∀ stop, NoFall line time stop)
    : Serves size delays line time s [] s
  | byte {time edge : Nat} {s t : Receiver} {interrupt : Interrupt} {rest : List Interrupt}
    (behind : time ≤ edge) (falls : FallsAt line edge) (first : NoFall line time edge)
    (reads : s.status &&& UART_STATUS_NLINE = 0)
    (later
      : Serves size delays line (interrupt.returns delays line edge)
          (exti1510IrqHandler size
            (uartRecviveData delays line interrupt.overhead (edge + interrupt.latency))
            { s with pnd := 0x400 })
          rest t)
    : Serves size delays line time s (interrupt :: rest) t
  | full {time edge : Nat} {s t : Receiver} {interrupt : Interrupt} {rest : List Interrupt}
    {ret : UInt8} (behind : time ≤ edge) (falls : FallsAt line edge)
    (first : NoFall line time edge) (waits : s.status &&& UART_STATUS_NLINE ≠ 0)
    (later
      : Serves size delays line (edge + interrupt.latency + interrupt.tail)
          (exti1510IrqHandler size ret { s with pnd := 0x400 }) rest t)
    : Serves size delays line time s (interrupt :: rest) t

/-- An interrupt reads early enough in the bits and is over before the stop bit is. -/
structure Interrupt.InTime (uartDelayus : UInt32) (interrupt : Interrupt) : Prop where
  margin
    : interrupt.latency + (uartDelayus / 2).toNat + needed interrupt.overhead 8
      < uartDelayus.toNat - 1
  ended
    : interrupt.latency + (uartDelayus / 2).toNat + needed interrupt.overhead 8 + interrupt.tail
      ≤ 2 * (uartDelayus.toNat - 1)

-----------------------------------------------------------------------------------------
-- Samples of a line that goes on
-----------------------------------------------------------------------------------------

/-- The passes need the same time on any line. -/
theorem foldl_receiveBit_time (delays : Delays) (line : Nat → Bool)
    (overhead : Nat → Overhead) (time : Nat) (data : UInt8) (bits : Nat)
    : ((List.range bits).foldl (receiveBit delays line overhead) (time, data)).1
      = time + bits * (delays.uartDelayus - 1).toNat + needed overhead bits := by
  induction bits with
  | zero => simp [needed]
  | succ bits ih =>
      rw [List.range_succ, List.foldl_append, List.foldl_cons, List.foldl_nil, receiveBit, ih,
        needed_succ, Nat.succ_mul]
      omega

/-- Two lines that agree on the bits of a byte give the same passes, on the first line later by
the place of the byte; by induction on the passes.
-/
theorem foldl_receiveBit_agree {delays : Delays} {line other : Nat → Bool} {place : Nat}
    {overhead : Nat → Overhead} {time : Nat}
    (agree
      : ∀ offset, offset < 9 * (delays.uartDelayus - 1).toNat → line (place + offset) = other offset)
    (margin : time + needed overhead 8 < (delays.uartDelayus - 1).toNat) (data : UInt8)
    {bits : Nat} (inside : bits ≤ 8)
    : (List.range bits).foldl (receiveBit delays line overhead) (place + time, data)
      = (place + ((List.range bits).foldl (receiveBit delays other overhead) (time, data)).1,
        ((List.range bits).foldl (receiveBit delays other overhead) (time, data)).2) := by
  induction bits with
  | zero => rfl
  | succ bits ih =>
      have part := needed_le overhead inside
      have next := needed_succ overhead bits
      have now := foldl_receiveBit_time delays other overhead time data bits
      have width : (bits + 1) * (delays.uartDelayus - 1).toNat
          ≤ 8 * (delays.uartDelayus - 1).toNat :=
        Nat.mul_le_mul_right _ inside
      rw [Nat.succ_mul] at width
      simp only [List.range_succ, List.foldl_append, List.foldl_cons, List.foldl_nil,
        ih (Nat.le_of_succ_le inside), receiveBit]
      rw [now]
      have sample : place + (time + bits * (delays.uartDelayus - 1).toNat + needed overhead bits)
            + (delays.uartDelayus - 1).toNat + (overhead bits).before
          = place
            + (time + bits * (delays.uartDelayus - 1).toNat + needed overhead bits
              + (delays.uartDelayus - 1).toNat + (overhead bits).before) := by
        omega
      rw [sample, agree _ (by omega)]
      refine Prod.ext ?_ rfl
      simp only
      omega

-----------------------------------------------------------------------------------------
-- A frame
-----------------------------------------------------------------------------------------

section Frame

variable {uartDelayus : UInt32} {line : Nat → Bool} {place : Nat} {b : UInt8}
  {rest : List (Bool × Nat)}

/-- The width of a bit. -/
theorem cell_toNat (bounded : 3 ≤ uartDelayus)
    : ((delaysOf uartDelayus).uartDelayus - 1).toNat = uartDelayus.toNat - 1 :=
  UInt32.toNat_sub_of_le _ _ (UInt32.le_trans (by decide) bounded)

theorem frameBits_length (b : UInt8) : (frameBits b).length = 10 := by
  simp [frameBits]

variable (shown
    : Shows line place true (virtualSerial (delaysOf uartDelayus) b.toUInt16 ++ rest))
include shown

/-- The line in the bits of a frame. -/
theorem frame_inCell (bounded : 3 ≤ uartDelayus) {k offset : Nat} {value : Bool}
    (bit : (frameBits b)[k]? = some value) (inside : offset < uartDelayus.toNat - 1)
    : line (place + (k * (uartDelayus.toNat - 1) + offset)) = value := by
  rw [virtualSerial_eq, cell_toNat bounded] at shown
  exact shown.inCell inside bit

/-- An interrupt in time reads the byte of the frame. -/
theorem frame_read (bounded : 3 ≤ uartDelayus) {interrupt : Interrupt}
    (inTime : interrupt.InTime uartDelayus)
    : uartRecviveData (delaysOf uartDelayus) line interrupt.overhead (place + interrupt.latency)
      = b := by
  have cell := cell_toNat bounded
  have margin : interrupt.latency + (uartDelayus / 2).toNat + needed interrupt.overhead 8
      < ((delaysOf uartDelayus).uartDelayus - 1).toNat := by
    rw [cell]
    exact inTime.margin
  have agree : ∀ offset, offset < 9 * ((delaysOf uartDelayus).uartDelayus - 1).toNat
      → line (place + offset)
        = levelAt true (virtualSerial (delaysOf uartDelayus) b.toUInt16) offset := by
    intro offset early
    have width : 0 < uartDelayus.toNat - 1 := by
      have := inTime.margin
      omega
    rw [cell] at early
    have small : offset / (uartDelayus.toNat - 1) < (frameBits b).length := by
      rw [frameBits_length, Nat.div_lt_iff_lt_mul width]
      omega
    have bit := List.getElem?_eq_getElem small
    have inside := Nat.mod_lt offset width
    have split := Nat.div_add_mod' offset (uartDelayus.toNat - 1)
    have sent := levelAt_cell inside true bit
    have here := frame_inCell shown bounded bit inside
    rw [split] at sent here
    rw [here, virtualSerial_eq, cell, sent]
  have passes := @foldl_receiveBit_agree (delaysOf uartDelayus) line _ place interrupt.overhead
    (interrupt.latency + (uartDelayus / 2).toNat) agree margin 0 8 (Nat.le_refl 8)
  rw [@foldl_receiveBit (delaysOf uartDelayus) b interrupt.overhead _ margin 8 (Nat.le_refl 8),
    assemble_bits, ← Nat.add_assoc] at passes
  exact congrArg Prod.snd passes

/-- The line falls at the start of a frame, before which it is high. -/
theorem frame_falls (bounded : 3 ≤ uartDelayus)
    (before : ∀ earlier, place = earlier + 1 → line earlier = true)
    : FallsAt line place := by
  have wide : 3 ≤ uartDelayus.toNat := UInt32.le_iff_toNat_le.mp bounded
  have low := @frame_inCell uartDelayus line place b rest shown bounded 0 0 false rfl (by omega)
  rw [Nat.zero_mul, Nat.add_zero] at low
  exact ⟨low, before⟩

end Frame

/-- An interrupt in time has returned by the end of the frame. -/
theorem returns_inTime {uartDelayus : UInt32} (bounded : 3 ≤ uartDelayus) {interrupt : Interrupt}
    (inTime : interrupt.InTime uartDelayus) (line : Nat → Bool) (place : Nat)
    : place + 8 * (uartDelayus.toNat - 1) + 1
        ≤ interrupt.returns (delaysOf uartDelayus) line place
      ∧ interrupt.returns (delaysOf uartDelayus) line place
        ≤ place + 10 * (uartDelayus.toNat - 1) := by
  have wide : 3 ≤ uartDelayus.toNat := UInt32.le_iff_toNat_le.mp bounded
  have half : (uartDelayus / 2).toNat = uartDelayus.toNat / 2 := UInt32.toNat_div _ _
  have ended := inTime.ended
  rw [Interrupt.returns, foldl_receiveBit_time, cell_toNat bounded]
  simp only [delaysOf, half] at ended ⊢
  omega

section Gap

variable {uartDelayus : UInt32} {line : Nat → Bool} {place gap : Nat} {b : UInt8}
  {rest : List (Bool × Nat)}
  (shown
    : Shows line place true
        (virtualSerial (delaysOf uartDelayus) b.toUInt16 ++ (true, gap) :: rest))
  (bounded : 3 ≤ uartDelayus)
include shown bounded

theorem frame_behind
    : Shows line (place + 10 * (uartDelayus.toNat - 1)) true ((true, gap) :: rest) := by
  have whole := shown
  rw [virtualSerial_eq, cell_toNat bounded] at whole
  have behind := whole.behindCells
  rw [frameBits_length] at behind
  have last : (frameBits b).getLastD true = true := rfl
  rwa [last] at behind

/-- From the stop bit on the line is high until the next frame. -/
theorem frame_high {time : Nat} (begun : place + 9 * (uartDelayus.toNat - 1) ≤ time)
    (early : time < place + 10 * (uartDelayus.toNat - 1) + gap)
    : line time = true := by
  by_cases stop : time < place + 10 * (uartDelayus.toNat - 1)
  · obtain ⟨offset, rfl⟩ := Nat.exists_eq_add_of_le begun
    have bit : (frameBits b)[9]? = some true := by simp [frameBits]
    have here := @frame_inCell uartDelayus line place b _ shown bounded 9 offset true bit
      (by omega)
    rwa [← Nat.add_assoc] at here
  · obtain ⟨offset, rfl⟩ := Nat.exists_eq_add_of_le (Nat.le_of_not_lt stop)
    exact (frame_behind shown bounded).inside (by omega)

/-- From inside the last bit of the byte on it does not fall until then. -/
theorem frame_noFall
    : NoFall line (place + 8 * (uartDelayus.toNat - 1) + 1)
        (place + 10 * (uartDelayus.toNat - 1) + gap) := by
  refine NoFall.append ?_ (.of_high fun time begun early => frame_high shown bounded begun early)
  refine @NoFall.of_constant line _ _ (b.toNat.testBit 7) fun time begun early => ?_
  obtain ⟨offset, rfl⟩ := Nat.exists_eq_add_of_le begun
  have here := frame_inCell shown bounded (frameBits_data b (i := 7) (by decide))
    (show offset < uartDelayus.toNat - 1 by omega)
  rwa [← Nat.add_assoc] at here

end Gap

-----------------------------------------------------------------------------------------
-- All frames
-----------------------------------------------------------------------------------------

/-- The receiver behind interrupts for these bytes, with the line pending at each. -/
def received (size : Nat) (s : Receiver) (bytes : List UInt8) : Receiver :=
  bytes.foldl (fun s ret => exti1510IrqHandler size ret { s with pnd := 0x400 }) s

/-- On a line that does not fall any more no interrupt is raised. -/
theorem serves_silent {size : Nat} {delays : Delays} {line : Nat → Bool} {time : Nat}
    {s t : Receiver} {interrupts : List Interrupt} (silent : ∀ stop, NoFall line time stop)
    : Serves size delays line time s interrupts t ↔ interrupts = [] ∧ t = s := by
  constructor
  · intro serves
    cases serves with
    | quiet => exact ⟨rfl, rfl⟩
    | @byte _ edge _ _ _ _ behind falls =>
        exact absurd falls (silent (edge + 1) edge behind (Nat.lt_succ_self edge))
    | @full _ edge _ _ _ _ _ behind falls =>
        exact absurd falls (silent (edge + 1) edge behind (Nat.lt_succ_self edge))
  · intro ends
    obtain ⟨rfl, rfl⟩ := ends
    exact .quiet silent

/-- The next interrupt is that of the first falling edge. -/
theorem serves_edge {size : Nat} {delays : Delays} {line : Nat → Bool} {time edge : Nat}
    {s t : Receiver} {interrupts : List Interrupt} (behind : time ≤ edge)
    (falls : FallsAt line edge) (first : NoFall line time edge)
    (reads : s.status &&& UART_STATUS_NLINE = 0)
    : Serves size delays line time s interrupts t
      ↔ ∃ interrupt rest,
          interrupts = interrupt :: rest
          ∧ Serves size delays line (interrupt.returns delays line edge)
              (exti1510IrqHandler size
                (uartRecviveData delays line interrupt.overhead (edge + interrupt.latency))
                { s with pnd := 0x400 })
              rest t := by
  constructor
  · intro serves
    cases serves with
    | quiet silent =>
        exact absurd falls (silent (edge + 1) edge behind (Nat.lt_succ_self edge))
    | @byte _ other _ _ interrupt rest behind' falls' first' _ later =>
        obtain earlier | rfl | later' := Nat.lt_trichotomy other edge
        · exact absurd falls' (first other behind' earlier)
        · exact ⟨interrupt, rest, rfl, later⟩
        · exact absurd falls (first' edge behind later')
    | full _ _ _ waits => exact absurd reads waits
  · intro raised
    obtain ⟨interrupt, rest, rfl, later⟩ := raised
    exact .byte behind falls first reads later

/-- While no line waits to be taken, interrupts in time read the bytes sent, each byte by one
interrupt; by induction on the bytes.
-/
theorem serves_iff {size : Nat} {uartDelayus : UInt32} (bounded : 3 ≤ uartDelayus)
    {sent : List (UInt8 × Nat)} {line : Nat → Bool} {time place : Nat} {s t : Receiver}
    {interrupts : List Interrupt}
    (shown : Shows line place true (transmit (delaysOf uartDelayus) sent))
    (before : ∀ earlier, place = earlier + 1 → line earlier = true)
    (behind : time ≤ place) (quiet : NoFall line time place)
    (inTime : ∀ interrupt ∈ interrupts, interrupt.InTime uartDelayus)
    (untaken
      : ∀ front char back,
          sent.map Prod.fst = front ++ char :: back
          → (received size s front).status.toNat < 0x8000)
    : Serves size (delaysOf uartDelayus) line time s interrupts t
      ↔ interrupts.length = sent.length ∧ t = received size s (sent.map Prod.fst) := by
  induction sent generalizing time place s interrupts with
  | nil =>
      have high : ∀ later, place ≤ later → line later = true := by
        intro later begun
        obtain ⟨offset, rfl⟩ := Nat.exists_eq_add_of_le begun
        exact shown offset
      rw [serves_silent fun stop => quiet.append (.of_high fun later begun _ => high later begun),
        List.length_nil, List.length_eq_zero_iff]
      rfl
  | cons head rest ih =>
      obtain ⟨b, gap⟩ := head
      have falls := frame_falls shown bounded before
      have reads : s.status &&& UART_STATUS_NLINE = 0 :=
        (nline_iff _).mpr (untaken [] b (rest.map Prod.fst) rfl)
      have next := (frame_behind shown bounded).behind
      have gapHigh : ∀ earlier, place + 10 * (uartDelayus.toNat - 1) + gap = earlier + 1
          → line earlier = true := by
        have wide : 3 ≤ uartDelayus.toNat := UInt32.le_iff_toNat_le.mp bounded
        intro earlier same
        exact frame_high shown bounded (by omega) (by omega)
      rw [serves_edge behind falls quiet reads]
      have tail {interrupt : Interrupt} (early : interrupt.InTime uartDelayus)
          {others : List Interrupt}
          (othersInTime : ∀ interrupt ∈ others, interrupt.InTime uartDelayus) :=
        @ih (interrupt.returns (delaysOf uartDelayus) line place) _
          (exti1510IrqHandler size b { s with pnd := 0x400 }) others next gapHigh
          (Nat.le_trans (returns_inTime bounded early line place).2 (Nat.le_add_right _ gap))
          ((frame_noFall shown bounded).mono (returns_inTime bounded early line place).1)
          othersInTime
          (fun front char back split => untaken (b :: front) char back (by
            rw [List.map_cons, split, List.cons_append]))
      constructor
      · intro raised
        obtain ⟨interrupt, others, rfl, later⟩ := raised
        obtain ⟨early, othersInTime⟩ := List.forall_mem_cons.mp inTime
        rw [frame_read shown bounded early] at later
        obtain ⟨count, same⟩ := (tail early othersInTime).mp later
        exact ⟨congrArg Nat.succ count, same⟩
      · intro enough
        obtain ⟨count, same⟩ := enough
        obtain ⟨interrupt, others, rfl⟩ := List.exists_cons_of_length_eq_add_one count
        obtain ⟨early, othersInTime⟩ := List.forall_mem_cons.mp inTime
        refine ⟨interrupt, others, rfl, ?_⟩
        rw [frame_read shown bounded early]
        exact (tail early othersInTime).mpr ⟨Nat.succ.inj count, same⟩

-----------------------------------------------------------------------------------------
-- A line of text
-----------------------------------------------------------------------------------------

/-- Characters of a line fill the buffer, by induction on those to come. -/
theorem received_text {size : Nat} (fits : size ≤ 0x4000) {front rest : List UInt8}
    (plain : Plain size (front ++ rest)) {s : Receiver} (holds : s.Holds size front)
    : (received size s rest).Holds size (front ++ rest) := by
  induction rest generalizing front s with
  | nil => rwa [List.append_nil]
  | cons char rest ih =>
      have room := plain.fits
      rw [List.length_append, List.length_cons] at room
      have notReturn : char ≠ 0x0d := fun isReturn =>
        plain.noReturn (isReturn ▸ List.mem_append_right front (.head rest))
      have next := holds.char fits 0x400 notReturn (by omega)
      rw [List.append_cons] at plain ⊢
      exact ih plain next

theorem received_append (size : Nat) (s : Receiver) (front back : List UInt8)
    : received size s (front ++ back) = received size (received size s front) back :=
  List.foldl_append

/-- The receiver at power-on holds no characters. -/
theorem start_holds (size : Nat) : Receiver.start.Holds size [] :=
  { count := rfl, stored := rfl, inside := fun _ none => absurd none List.not_mem_nil }

/-- A part of a line and its end: no line waits before the line feed, and with it the line does.
-/
theorem received_line {size : Nat} (fits : size ≤ 0x4000) {text : List UInt8}
    (plain : Plain size text)
    : (∀ front char back,
        text ++ [0x0d, 0x0a] = front ++ char :: back
        → (received size .start front).status.toNat < 0x8000)
      ∧ 0x8000 ≤ (received size .start (text ++ [0x0d, 0x0a])).status.toNat
      ∧ (received size .start (text ++ [0x0d, 0x0a])).Terminated size text := by
  have holds := @received_text size fits [] text plain .start (start_holds size)
  rw [List.nil_append] at holds
  have ⟨status, terminated⟩ := holds.carriageReturn fits 0x400 plain.fits
  have room := plain.fits
  refine ⟨fun front char back split => ?_, ?_⟩
  · obtain ⟨more, rfl, tail⟩ | ⟨more, rfl, tail⟩ := List.append_eq_append_iff.mp split
    · cases more with
      | nil =>
          rw [List.append_nil, holds.count]
          omega
      | cons first more =>
          obtain ⟨rfl, tail⟩ := List.cons.inj tail
          cases more with
          | nil =>
              rw [received_append]
              refine Nat.lt_of_le_of_lt (Nat.le_of_eq status) ?_
              omega
          | cons second more =>
              have length := congrArg List.length tail
              simp at length
    · have part := plain.fits
      rw [List.length_append] at part
      have short : Plain size front :=
        {
          noReturn := fun member => plain.noReturn (List.mem_append_left _ member)
          noNul := fun member => plain.noNul (List.mem_append_left _ member)
          fits := by omega
        }
      have begun := @received_text size fits [] front short .start (start_holds size)
      rw [begun.count, List.nil_append]
      omega
  · rw [received_append]
    exact terminated.lineFeed 0x400 (by rw [status]; omega) (by rw [status]; omega)

/-- A line of text that one board sends is taken by the other: its interrupts are one for each
byte, and behind them the text lies terminated in the buffer, the status says so, no character
is behind the buffer, and the text is what uartsend_data would send back.
-/
theorem link_delivers (size : Nat) (fits : size ≤ 0x4000) (uartDelayus : UInt32)
    (bounded : 3 ≤ uartDelayus) (text : List UInt8) (plain : Plain size text)
    (sent : List (UInt8 × Nat)) (bytes : sent.map Prod.fst = text ++ [0x0d, 0x0a])
    (line : Nat → Bool) (start : Nat) (idle : ∀ time < start, line time = true)
    (shown : Shows line start true (transmit (delaysOf uartDelayus) sent))
    (interrupts : List Interrupt)
    (inTime : ∀ interrupt ∈ interrupts, interrupt.InTime uartDelayus)
    : ((∃ t, Serves size (delaysOf uartDelayus) line 0 .start interrupts t)
        ↔ interrupts.length = text.length + 2)
      ∧ ∀ t,
          Serves size (delaysOf uartDelayus) line 0 .start interrupts t
          → uartsendData (t.buffer size) = some text
            ∧ t.status &&& UART_STATUS_NLINE ≠ 0
            ∧ t.Inside size := by
  obtain ⟨untaken, full, terminated⟩ := received_line fits plain
  have count : sent.length = text.length + 2 := by
    have length := congrArg List.length bytes
    rwa [List.length_map, List.length_append] at length
  have exact {t : Receiver} := @serves_iff size uartDelayus bounded sent line 0 start .start t
    interrupts shown (fun earlier same => idle earlier (by omega)) (Nat.zero_le start)
    (.of_high fun time _ early => idle time early) inTime (by rw [bytes]; exact untaken)
  rw [count, bytes] at exact
  refine ⟨⟨fun some => ?_, fun enough => ⟨_, exact.mpr ⟨enough, rfl⟩⟩⟩, fun t serves => ?_⟩
  · obtain ⟨t, serves⟩ := some
    exact (exact.mp serves).1
  · obtain ⟨_, rfl⟩ := exact.mp serves
    obtain ⟨rest, stored⟩ := terminated.stored
    refine ⟨?_, fun clear => Nat.not_lt_of_le full ((nline_iff _).mp clear), terminated.inside⟩
    rw [stored]
    exact uartsendData_line plain.noNul rest

/-- A character and the end of its line, as they are sent with bits of eight microseconds. -/
def lineSent : List (UInt8 × Nat) := [(0x68, 0), (0x0d, 5), (0x0a, 0)]

/-- An interrupt that starts one microsecond behind the edge. -/
def promptly : Interrupt :=
  { latency := 1, overhead := fun _ => { before := 0, after := 0 }, tail := 3 }

theorem link_delivers_lineSent
    : ((∃ t,
          Serves 50 (delaysOf 9) (levelAt true (transmit (delaysOf 9) lineSent)) 0 .start
            (List.replicate 3 promptly) t)
        ↔ (List.replicate 3 promptly).length = [(0x68 : UInt8)].length + 2)
      ∧ ∀ t,
          Serves 50 (delaysOf 9) (levelAt true (transmit (delaysOf 9) lineSent)) 0 .start
            (List.replicate 3 promptly) t
          → uartsendData (t.buffer 50) = some [0x68]
            ∧ t.status &&& UART_STATUS_NLINE ≠ 0
            ∧ t.Inside 50 :=
  link_delivers 50 (by decide) 9 (by decide) [0x68] ⟨by decide, by decide, by decide⟩ lineSent rfl
    _ 0 (fun _ early => absurd early (Nat.not_lt_zero _)) (shows_levelAt _ _)
    (List.replicate 3 promptly)
    (fun _ member => List.eq_of_mem_replicate member ▸ ⟨by decide, by decide⟩)

end At32.VirtualUart
