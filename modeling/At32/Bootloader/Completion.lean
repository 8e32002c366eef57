import At32.Bootloader.Parameters

/-! When a data packet is answered with the final response, against what the host was told:
that a WriteMemory command was accepted and that its whole region has been written.
-/

namespace At32.Bootloader

open BitMask LittleEndian Transducer

-----------------------------------------------------------------------------------------
-- The transfer as the calls show it
-----------------------------------------------------------------------------------------

/-- The region that a WriteMemory command declared, and the writes since. -/
structure Transfer where
  region : AppProgramLocation
  writes : List (UInt32 × UInt16)

/-- The address was in a write: one that starts at its address and takes its halfwords. -/
def Transfer.Covers (transfer : Transfer) (addr : UInt32) : Prop :=
  ∃ write ∈ transfer.writes, ∃ k < 2 * write.2.toNat, addr = write.1 + UInt32.ofNat k

/-- Every address of the declared region was in a write. -/
def Transfer.Complete (transfer : Transfer) : Prop :=
  ∀ i < transfer.region.flashByteCount.toNat,
    transfer.Covers (transfer.region.flashStartAddr + UInt32.ofNat i)

def Transfer.write (transfer : Transfer) (addr : UInt32) (len : UInt16) : Transfer :=
  { transfer with writes := (addr, len) :: transfer.writes }

/-- What the calls made so far tell: whether they come from a data packet, and the transfer
of the latest WriteMemory command that no final response has ended.
-/
structure Ledger where
  inData : Bool
  transfer : Option Transfer

/-- Before the first call. -/
def Ledger.start : Ledger := { inData := false, transfer := none }

/-- A data packet is answered with the final response by the only 18 bytes it can send. -/
def Ledger.observe (ledger : Ledger) : Call → Ledger
  | .analysisCommandTag fp =>
      {
        inData := false
        transfer :=
          if fp.tag = WRITE_MEMORY then
            some { region := fp.declared, writes := [] }
          else
            ledger.transfer
      }
  | .recvData _ => { ledger with inData := true }
  | .blWriteMemory addr _ len =>
      { ledger with transfer := ledger.transfer.map (·.write addr len) }
  | .blSendData _ buf =>
      if ledger.inData ∧ buf.length = 18 then { ledger with transfer := none } else ledger
  | _ => ledger

/-- A call that is a final response ends a transfer whose region is written. -/
def Ledger.Honest (ledger : Ledger) : Call → Prop
  | .blSendData _ buf =>
      ledger.inData
      → buf.length = 18
      → ∃ transfer, ledger.transfer = some transfer ∧ transfer.Complete
  | _ => True

/-- All final responses among the calls are honest. -/
def HonestFrom : Ledger → List Call → Prop
  | _, [] => True
  | ledger, call :: rest => ledger.Honest call ∧ HonestFrom (ledger.observe call) rest

theorem honestFrom_append {ledger : Ledger} {left right : List Call}
    : HonestFrom ledger (left ++ right)
      ↔ HonestFrom ledger left ∧ HonestFrom (left.foldl Ledger.observe ledger) right := by
  induction left generalizing ledger with
  | nil => simp [HonestFrom]
  | cons call rest ih => simp [HonestFrom, ih, and_assoc]

/-- Calls of a command tell nothing new about the transfer. -/
theorem observe_fromCommand {ledger : Ledger} (command : ledger.inData = false)
    {calls : List Call} (quiet : ∀ call ∈ calls, call.FromCommand)
    : HonestFrom ledger calls ∧ calls.foldl Ledger.observe ledger = ledger := by
  induction calls with
  | nil => exact ⟨trivial, rfl⟩
  | cons call rest ih =>
      obtain ⟨first, rest⟩ := List.forall_mem_cons.mp quiet
      have same : ledger.observe call = ledger := by
        cases call <;> first | rfl | exact first.elim | simp [Ledger.observe, command]
      have honest : ledger.Honest call := by
        cases call <;> simp [Ledger.Honest, command]
      rw [HonestFrom, List.foldl_cons, same]
      exact ⟨⟨honest, (ih rest).1⟩, (ih rest).2⟩

/-- Prints and a ping response tell nothing either. -/
theorem observe_undispatched (ledger : Ledger) {calls : List Call}
    (undispatched
      : (∀ call ∈ calls, call.isPrint) ∨ calls = .pingResponsePacket :: pingResponsePacket)
    : HonestFrom ledger calls ∧ calls.foldl Ledger.observe ledger = ledger := by
  rcases undispatched with prints | rfl
  · induction calls with
    | nil => exact ⟨trivial, rfl⟩
    | cons call rest ih =>
        obtain ⟨print, rest⟩ := List.forall_mem_cons.mp prints
        have same : ledger.observe call = ledger ∧ ledger.Honest call := by
          cases call <;> first | exact ⟨rfl, trivial⟩ | cases print
        rw [HonestFrom, List.foldl_cons, same.1]
        exact ⟨⟨same.2, (ih rest).1⟩, (ih rest).2⟩
  · have ten : pingResponseBuffer.length = 10 := rfl
    simp [HonestFrom, pingResponsePacket, Ledger.observe, Ledger.Honest, ten]

-----------------------------------------------------------------------------------------
-- The transfer as the static variables keep it
-----------------------------------------------------------------------------------------

/-- The byte completes no packet that starts a transfer elsewhere than declared, and no data
packet that is taken without a transfer, loses its last byte, or meets an end of the region
that has run over the end of the address space.
-/
def State.FollowsTransfer (ops : BlTestFuncOps) (s : State) (data : UInt8) : Prop :=
  let start := s.blVariate.writeMemoryStart
  let finish := s.appProgram.flashByteCount + s.appProgram.flashStartAddr
  (s.Accepts data .command
    → (s.completed data).fp.tag = WRITE_MEMORY
    → (s.completed data).fp.declared.flashByteCount = 0
      ∨ s.appProgram.flashStartAddr &&& ~~~ (s.completed data).fp.declared.flashStartAddr = 0)
  ∧ (s.Accepts data .data
    → (start = 0 → 0 < ops.appAddress ∧ finish ≠ 0)
      ∧ (ops.appAddress ≤ start → s.fp.length.toNat % 2 = 0)
      ∧ ((if ops.appAddress ≤ start then start + s.fp.length.toUInt32 else start) = finish
        → s.appProgram.flashByteCount.toNat + s.appProgram.flashStartAddr.toNat ≤ 2 ^ 32))

instance (ops : BlTestFuncOps) (s : State) (data : UInt8)
    : Decidable (s.FollowsTransfer ops data) :=
  inferInstanceAs (Decidable (_ ∧ _))

/-- The pointer is this many bytes behind the declared start, all of them in writes, and the
parameters kept are not below the declared ones.
-/
structure Transfer.Reached (transfer : Transfer) (s : State) (reached : Nat) : Prop where
  start : transfer.region.flashStartAddr.toNat ≤ s.appProgram.flashStartAddr.toNat
  count : transfer.region.flashByteCount.toNat ≤ s.appProgram.flashByteCount.toNat
  pointer
    : s.blVariate.writeMemoryStart = transfer.region.flashStartAddr + UInt32.ofNat reached
  covers : ∀ i < reached, transfer.Covers (transfer.region.flashStartAddr + UInt32.ofNat i)

/-- Without a transfer the pointer is zero; a transfer of at least one byte has reached it.
-/
def Linked (ledger : Ledger) (s : State) : Prop :=
  match ledger.transfer with
  | none => s.blVariate.writeMemoryStart = 0
  | some transfer => transfer.region.flashByteCount = 0 ∨ ∃ reached, transfer.Reached s reached

/-- A pointer that meets the end of the kept region has passed the whole declared region.
-/
theorem end_passed {start count kept keptCount : UInt32} {reached : Nat}
    (startLe : start.toNat ≤ kept.toNat) (countLe : count.toNat ≤ keptCount.toNat)
    (fits : keptCount.toNat + kept.toNat ≤ 2 ^ 32)
    (meets : start + UInt32.ofNat reached = keptCount + kept)
    (moved : start + UInt32.ofNat reached = 0 → reached ≠ 0)
    : count.toNat ≤ reached := by
  by_contra short
  have bound := count.toNat_lt
  have places := congrArg UInt32.toNat meets
  rw [UInt32.toNat_add, UInt32.toNat_add, UInt32.toNat_ofNat', Nat.mod_eq_of_lt (by omega)]
    at places
  have zero : start.toNat = 0 ∧ reached = 0 := by omega
  refine moved ?_ zero.2
  rw [zero.2, ← UInt32.toNat_inj, UInt32.toNat_add, zero.1]
  rfl

theorem Transfer.Covers.write {transfer : Transfer} {place : UInt32}
    (covers : transfer.Covers place) (addr : UInt32) (len : UInt16)
    : (transfer.write addr len).Covers place := by
  obtain ⟨write, member, k, inside, same⟩ := covers
  exact ⟨write, .tail _ member, k, inside, same⟩

/-- A write of an even number of bytes at the pointer extends what is reached. -/
theorem Transfer.Reached.write {transfer : Transfer} {s t : State} {reached : Nat}
    (before : transfer.Reached s reached) {len : UInt16} (even : len.toNat % 2 = 0)
    (appProgram : t.appProgram = s.appProgram)
    (pointer
      : t.blVariate.writeMemoryStart = s.blVariate.writeMemoryStart + len.toUInt32)
    : (transfer.write s.blVariate.writeMemoryStart (len / 2)).Reached t
        (reached + len.toNat) := by
  have widened : len.toUInt32 = UInt32.ofNat len.toNat := by
    rw [← UInt16.toNat_toUInt32, UInt32.ofNat_toNat]
  constructor
  · rw [appProgram]
    exact before.start
  · rw [appProgram]
    exact before.count
  · rw [pointer, before.pointer, widened, UInt32.ofNat_add, ← UInt32.add_assoc]
    rfl
  · intro i inside
    by_cases earlier : i < reached
    · exact (before.covers i earlier).write _ _
    · refine ⟨_, .head _, i - reached, ?_, ?_⟩
      · have halved : (len / 2).toNat = len.toNat / 2 := UInt16.toNat_div _ _
        simp only [halved]
        omega
      · simp only [before.pointer, UInt32.add_assoc, ← UInt32.ofNat_add]
        rw [Nat.add_sub_cancel' (Nat.le_of_not_lt earlier)]
        rfl

/-- What a data packet's write leaves for the final test: the transfer reaches the pointer,
and where it has reached nothing the pointer has not moved.
-/
def Ready (ledger : Ledger) (s t : State) : Prop :=
  match ledger.transfer with
  | none => t.blVariate.writeMemoryStart = 0 ∧ s.blVariate.writeMemoryStart = 0
  | some transfer =>
      transfer.region.flashByteCount = 0
      ∨ ∃ reached,
          transfer.Reached t reached
          ∧ (reached = 0 → t.blVariate.writeMemoryStart = s.blVariate.writeMemoryStart)

/-- The write of a data packet is no response, and the transfer still reaches the pointer;
without a transfer nothing is written.
-/
theorem recvDataWrite_ready {ops : BlTestFuncOps} {s : State} {ledger : Ledger}
    (linked : Linked ledger s)
    (waiting : s.blVariate.writeMemoryStart = 0 → 0 < ops.appAddress)
    (even : ops.appAddress ≤ s.blVariate.writeMemoryStart → s.fp.length.toNat % 2 = 0)
    : HonestFrom ledger (recvDataWrite ops s).2
      ∧ ((recvDataWrite ops s).2.foldl Ledger.observe ledger).inData = ledger.inData
      ∧ Ready ((recvDataWrite ops s).2.foldl Ledger.observe ledger) s (recvDataWrite ops s).1
      := by
  by_cases above : ops.appAddress ≤ s.blVariate.writeMemoryStart
  · cases opened : ledger.transfer with
    | none =>
        rw [Linked, opened] at linked
        have positive := waiting linked
        rw [linked] at above
        exact absurd positive (UInt32.not_lt.mpr above)
    | some transfer =>
        rw [Linked, opened] at linked
        simp only [recvDataWrite, above, if_true]
        refine ⟨⟨trivial, trivial⟩, rfl, ?_⟩
        simp only [Ready, List.foldl_cons, List.foldl_nil, Ledger.observe, opened,
          Option.map_some]
        refine linked.imp_right fun before => ?_
        obtain ⟨reached, before⟩ := before
        refine ⟨_, before.write (even above) rfl rfl, fun none => ?_⟩
        have empty : s.fp.length = 0 := by
          rw [← UInt16.toNat_inj]
          exact Nat.eq_zero_of_add_eq_zero_left none
        have still : s.blVariate.writeMemoryStart + s.fp.length.toUInt32
            = s.blVariate.writeMemoryStart := by
          rw [empty]
          exact UInt32.add_zero _
        exact still
  · simp only [recvDataWrite, above, if_false]
    refine ⟨trivial, rfl, ?_⟩
    simp only [Ready, List.foldl_nil]
    rw [Linked] at linked
    cases opened : ledger.transfer with
    | none =>
        rw [opened] at linked
        exact ⟨linked, linked⟩
    | some transfer =>
        rw [opened] at linked
        refine linked.imp_right fun before => ?_
        obtain ⟨reached, before⟩ := before
        exact ⟨reached, before, fun _ => trivial⟩

/-- Where the final test is met, the whole declared region has been written. -/
theorem Ready.complete {ledger : Ledger} {s t : State} (ready : Ready ledger s t)
    (meets
      : t.blVariate.writeMemoryStart
        = t.appProgram.flashByteCount + t.appProgram.flashStartAddr)
    (waiting
      : s.blVariate.writeMemoryStart = 0
        → t.appProgram.flashByteCount + t.appProgram.flashStartAddr ≠ 0)
    (fits : t.appProgram.flashByteCount.toNat + t.appProgram.flashStartAddr.toNat ≤ 2 ^ 32)
    : ∃ transfer, ledger.transfer = some transfer ∧ transfer.Complete := by
  rw [Ready] at ready
  cases opened : ledger.transfer with
  | none =>
      rw [opened] at ready
      exact absurd (meets.symm.trans ready.1) (waiting ready.2)
  | some transfer =>
      rw [opened] at ready
      refine ⟨transfer, rfl, fun i inside => ?_⟩
      rcases ready with empty | ⟨reached, before, moved⟩
      · rw [empty] at inside
        exact absurd inside (Nat.not_lt_zero i)
      · have passed := end_passed before.start before.count fits
          (before.pointer.symm.trans meets) fun zero none => by
            have still := moved none
            rw [before.pointer, zero] at still
            exact waiting still.symm (meets.symm.trans (before.pointer.trans zero))
        exact before.covers i (Nat.lt_of_lt_of_le inside passed)

theorem Ready.linked {ledger : Ledger} {s t : State} (ready : Ready ledger s t)
    : Linked ledger t := by
  rw [Ready] at ready
  rw [Linked]
  cases opened : ledger.transfer with
  | none =>
      rw [opened] at ready
      exact ready.1
  | some transfer =>
      rw [opened] at ready
      refine ready.imp_right fun before => ?_
      obtain ⟨reached, before, _⟩ := before
      exact ⟨reached, before⟩

/-- The final test answers only where the whole declared region has been written, and then
ends the transfer.
-/
theorem recvDataFinish_linked {ledger : Ledger} {s t : State} (ready : Ready ledger s t)
    (inData : ledger.inData = true)
    (waiting
      : s.blVariate.writeMemoryStart = 0
        → t.appProgram.flashByteCount + t.appProgram.flashStartAddr ≠ 0)
    (fits
      : t.blVariate.writeMemoryStart
          = t.appProgram.flashByteCount + t.appProgram.flashStartAddr
        → t.appProgram.flashByteCount.toNat + t.appProgram.flashStartAddr.toNat ≤ 2 ^ 32)
    : HonestFrom ledger (recvDataFinish t).2
      ∧ Linked ((recvDataFinish t).2.foldl Ledger.observe ledger) (recvDataFinish t).1 := by
  by_cases meets : t.blVariate.writeMemoryStart
      = t.appProgram.flashByteCount + t.appProgram.flashStartAddr
  · have complete := ready.complete meets waiting (fits meets)
    simp only [recvDataFinish, meets, if_true, genericResponsePacket]
    refine ⟨⟨fun _ _ => complete, trivial⟩, ?_⟩
    simp [Linked, Ledger.observe, inData, responseBuffer_length]
  · simp only [recvDataFinish, meets, if_false]
    exact ⟨trivial, ready.linked⟩

/-- An ack is no response and tells nothing. -/
theorem observe_ackPacket (ledger : Ledger)
    : HonestFrom ledger ackPacket ∧ ackPacket.foldl Ledger.observe ledger = ledger := by
  simp [ackPacket, HonestFrom, Ledger.observe, Ledger.Honest]

/-- A command keeps the link: WriteMemory opens a transfer at its pointer, and the others
move no pointer and lower no parameter.
-/
theorem command_linked (ops : BlTestFuncOps) {s : State} {ledger : Ledger}
    (linked : Linked ledger s)
    (declared
      : s.fp.tag = WRITE_MEMORY
        → s.fp.declared.flashByteCount = 0
          ∨ s.appProgram.flashStartAddr &&& ~~~ s.fp.declared.flashStartAddr = 0)
    : Linked (ledger.observe (.analysisCommandTag s.fp)) (analysisCommandTag ops s).1 := by
  obtain ⟨startLe, countLe, declaredLe⟩ := region_le s
  simp only [Linked, Ledger.observe]
  rcases analysisCommandTag_session ops s with
    ⟨tag, appProgram, pointer⟩ | ⟨tag, appProgram, pointer⟩
  · simp only [tag, if_true]
    refine (declared tag).imp_right fun covered => ⟨0, ?_⟩
    have start : s.region.flashStartAddr = s.fp.declared.flashStartAddr := by
      rw [State.region, analysisAppDownloadAddr_appProgram]
      exact (or_eq_right_iff _ _).mpr covered
    constructor
    · rw [appProgram, start]
    · rw [appProgram]
      exact declaredLe
    · rw [pointer, start]
      exact (UInt32.add_zero _).symm
    · intro i inside
      exact absurd inside (Nat.not_lt_zero i)
  · simp only [tag, if_false, pointer]
    rw [Linked] at linked
    cases opened : ledger.transfer with
    | none =>
        rw [opened] at linked
        exact linked
    | some transfer =>
        rw [opened] at linked
        refine linked.imp_right fun before => ?_
        obtain ⟨reached, before⟩ := before
        refine ⟨reached, ?_, ?_, pointer.trans before.pointer, before.covers⟩
        · rcases appProgram with joined | same
          · exact joined ▸ before.start.trans startLe
          · exact same ▸ before.start
        · rcases appProgram with joined | same
          · exact joined ▸ before.count.trans countLe
          · exact same ▸ before.count

/-- The link is about the parameters and the pointer only. -/
theorem Linked.congr {ledger : Ledger} {s t : State} (linked : Linked ledger s)
    (appProgram : t.appProgram = s.appProgram)
    (pointer : t.blVariate.writeMemoryStart = s.blVariate.writeMemoryStart)
    : Linked ledger t := by
  simp only [Linked] at linked ⊢
  cases opened : ledger.transfer with
  | none =>
      rw [opened] at linked
      exact pointer.trans linked
  | some transfer =>
      rw [opened] at linked
      refine linked.imp_right fun before => ?_
      obtain ⟨reached, before⟩ := before
      exact ⟨reached, appProgram ▸ before.start, appProgram ▸ before.count,
        pointer.trans before.pointer, before.covers⟩

/-- One byte that follows the transfer keeps the link, and the responses it leads to are
honest; by cases on what the byte completes.
-/
theorem honest_step {ops : BlTestFuncOps} {s t : State} {data : UInt8} {calls : List Call}
    {ledger : Ledger} (linked : Linked ledger s) (follows : s.FollowsTransfer ops data)
    (taken : analysisPacket ops s data = .ok (t, calls))
    : HonestFrom ledger calls ∧ Linked (calls.foldl Ledger.observe ledger) t := by
  rcases analysisPacket_cases taken with ⟨kind, accepts, rfl, rfl⟩ | ⟨unaccepted, quiet⟩
  · have before : Linked ledger (s.completed data) := linked.congr rfl rfl
    cases kind with
    | command =>
        have handled := command_linked ops before (follows.1 accepts)
        have inCommand
            : (ledger.observe (.analysisCommandTag (s.completed data).fp)).inData = false :=
          rfl
        obtain ⟨honest, same⟩ :=
          observe_fromCommand inCommand (analysisCommandTag_fromCommand ops (s.completed data))
        rw [Call.dispatch, handle, List.foldl_cons, same]
        exact ⟨⟨trivial, honest⟩, handled⟩
    | data =>
        obtain ⟨waiting, even, fits⟩ := follows.2 accepts
        obtain ⟨appProgram, pointer⟩ := recvDataWrite_session ops (s.completed data)
        have opened : Linked { ledger with inData := true } (s.completed data) := before
        obtain ⟨written, inData, ready⟩ :=
          recvDataWrite_ready opened (fun zero => (waiting zero).1) even
        obtain ⟨acked, same⟩ :=
          observe_ackPacket
            ((recvDataWrite ops (s.completed data)).2.foldl Ledger.observe
              { ledger with inData := true })
        obtain ⟨finished, final⟩ :=
          recvDataFinish_linked ready inData (appProgram ▸ fun zero => (waiting zero).2)
            (appProgram ▸ pointer ▸ fits)
        rw [Call.dispatch, handle, List.foldl_cons, recvData]
        simp only [HonestFrom, honestFrom_append, List.foldl_append, Ledger.observe, same]
        exact ⟨⟨trivial, ⟨written, acked⟩, finished⟩, final⟩
  · obtain ⟨honest, same⟩ := observe_undispatched ledger quiet
    obtain ⟨appProgram, pointer⟩ := unaccepted_session unaccepted taken
    rw [same]
    exact ⟨honest, linked.congr appProgram pointer⟩

/-- In every run whose bytes all follow the transfer, each final response answers a transfer
whose declared region has been written since its command. Witness: the pointer is behind as
many written bytes as the transfer has reached.
-/
theorem completion_honest (ops : BlTestFuncOps) (fp : FramingPacket) (bytes : List UInt8)
    (follows : StepsMeet (analysisPacket ops) (State.FollowsTransfer ops) (.powerOn fp) bytes)
    (received rest : List UInt8) (split : bytes = received ++ rest) (s : State)
    (calls : List Call) (ran : run (analysisPacket ops) (.powerOn fp) received = .ok (s, calls))
    : HonestFrom .start calls := by
  have keeps (sent : List Call) (s : State) (data : UInt8) (t : State) (calls : List Call)
      (inv : HonestFrom .start sent ∧ Linked (sent.foldl Ledger.observe .start) s)
      (follows : s.FollowsTransfer ops data)
      (taken : analysisPacket ops s data = .ok (t, calls))
      : HonestFrom .start (sent ++ calls)
        ∧ Linked ((sent ++ calls).foldl Ledger.observe .start) t := by
    obtain ⟨honest, linked⟩ := honest_step inv.2 follows taken
    rw [honestFrom_append, List.foldl_append]
    exact ⟨⟨inv.1, honest⟩, linked⟩
  subst split
  have start : HonestFrom .start [] ∧ Linked ([].foldl Ledger.observe .start) (.powerOn fp) :=
    ⟨trivial, rfl⟩
  exact (stepsMeet_outputs keeps start follows ran).1

/-- WriteMemory for two bytes at 0x08009000 and their data packet. -/
def twoBytesSession : List UInt8 :=
  [
    0x5A, 0xA4, 0x0C, 0x00, 0xC0, 0x02, 0x04, 0x00, 0x00, 0x02,
    0x00, 0x90, 0x00, 0x08, 0x02, 0x00, 0x00, 0x00,
    0x5A, 0xA5, 0x02, 0x00, 0xAF, 0x26, 0x11, 0x22
  ]

/-- On the board of main.c the session ends with the final response, and it is honest. -/
theorem completion_honest_twoBytes
    : ∃ s calls,
        run (analysisPacket blTestFunc) (.powerOn .zero) twoBytesSession = .ok (s, calls)
        ∧ calls.getLast?
          = some (.blSendData 0 (responseBuffer 0x5A 0xA4 0xA0 [WRITE_MEMORY, 0, 0, 0]))
        ∧ HonestFrom .start calls := by
  have answer
      : ((run (analysisPacket blTestFunc) (.powerOn .zero) twoBytesSession).map
            (·.2.getLast?)).toOption.join
        = some (.blSendData 0 (responseBuffer 0x5A 0xA4 0xA0 [WRITE_MEMORY, 0, 0, 0])) := by
    decide +kernel
  cases ran : run (analysisPacket blTestFunc) (.powerOn .zero) twoBytesSession with
  | error =>
      rw [ran] at answer
      cases answer
  | ok reached =>
      obtain ⟨s, calls⟩ := reached
      rw [ran] at answer
      exact ⟨s, calls, rfl, answer,
        completion_honest blTestFunc .zero twoBytesSession (by decide +kernel) _ []
          (List.append_nil _).symm s calls ran⟩

/-- A data packet of two bytes. -/
def strayData : Frame blTestFunc.packetSize :=
  {
    kind := .data
    payload := [0x11, 0x22]
    crcLow := 0xAF
    crcHigh := 0x26
    nonempty := by decide
    fits := by decide
  }

/-- From power-on the board of main.c answers that packet alone with the final response: the
pointer and both parameters are zero, so the pointer is at the end.
-/
theorem completion_dishonest_strayData
    : ¬ ∀ received rest,
        [0x5A, 0xA5, 0x02, 0x00, 0xAF, 0x26, 0x11, 0x22] = received ++ rest
        → ∀ s calls,
            run (analysisPacket blTestFunc) (.powerOn .zero) received = .ok (s, calls)
            → HonestFrom .start calls := by
  intro all
  have fed := run_frame_valid blTestFunc (by decide) (.powerOn .zero) ⟨rfl, rfl⟩ strayData
    (by decide +kernel)
  have honest := all _ [] (List.append_nil _).symm _ _ fed
  have answer
      : (handle blTestFunc ((State.powerOn .zero).received strayData) strayData.kind).2
        = ackPacket
          ++ [.blSendData 0 (responseBuffer 0x5A 0xA4 0xA0 [WRITE_MEMORY, 0, 0, 0])] := by
    decide +kernel
  rw [answer] at honest
  obtain ⟨_, _, _, _, final, _⟩ := honest
  obtain ⟨transfer, opened, _⟩ := final rfl (responseBuffer_length _ _ _ _)
  cases opened

end At32.Bootloader
