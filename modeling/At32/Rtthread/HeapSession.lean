import At32.Lib.Allocation
import At32.Rtthread.HeapRealloc

/-! The heap and those that use it: a session is any order of calls, each with pointers that the
calls before it returned, and of writes into what these hold.
-/

namespace At32.Mem

open Allocation ByteMemory Segments

/-- A call of the heap, or a write of a caller. -/
inductive Call
  | malloc (size : UInt32)
  | calloc (count size : UInt32)
  | realloc (rmem : Option UInt32) (newsize : UInt32)
  | free (rmem : Option UInt32)
  | store (place : Nat) (bytes : List UInt8)

/-- The heap behind a call, and the pointer that it returns. -/
def Call.serve (passes : Nat) : Call → Heap → Option (Option UInt32 × Heap)
  | .malloc size, s => rtMalloc passes size s
  | .calloc count size, s => rtCalloc passes count size s
  | .realloc rmem newsize, s => rtRealloc passes rmem newsize s
  | .free rmem, s => some (none, rtFree rmem s)
  | .store place bytes, s => some (none, { s with mem := ByteMemory.store s.mem place bytes })

/-- A length that RT_ALIGN does not wrap to 0. -/
def Alignable (size : Nat) : Prop := size ≤ 2 ^ 32 - 4

/-- RT_NULL, or a pointer to a block that is held. -/
def Valid (l : Ledger) (rmem : Option UInt32) : Prop := ∀ p ∈ rmem, (l.held p.toNat).isSome

/-- A call that a caller may make. -/
def Call.Legal (l : Ledger) : Call → Prop
  | .malloc size => Alignable size.toNat
  | .calloc count size => Alignable (count.toNat * size.toNat)
  | .realloc rmem newsize => Valid l rmem ∧ Alignable newsize.toNat
  | .free rmem => Valid l rmem
  | .store place bytes =>
      ∃ start count,
        l.held start = some count ∧ start ≤ place ∧ place + bytes.length ≤ start + count

/-- The ledger without the block of a pointer. -/
def without (l : Ledger) : Option UInt32 → Ledger
  | none => l
  | some p => l.release p.toNat

/-- What is known of the bytes of the block of a pointer. -/
def knownAt (l : Ledger) : Option UInt32 → Nat → Option UInt8
  | none => fun _ => none
  | some p => l.known p.toNat ((l.held p.toNat).getD 0)

/-- What the callers hold and know behind a call, by what it returned. -/
def Call.after (l : Ledger) : Call → (reply : Option UInt32) → Ledger
  | .malloc size, some p => l.grant p.toNat size.toNat fun _ => none
  | .calloc count size, some p => l.grant p.toNat (count.toNat * size.toNat) fun _ => some 0
  | .realloc rmem newsize, some p =>
      (without l rmem).grant p.toNat newsize.toNat (knownAt l rmem)
  | .realloc rmem newsize, none => if newsize = 0 then without l rmem else l
  | .free rmem, _ => without l rmem
  | .store place bytes, _ => l.write place bytes
  | _, none => l

/-- A call that cuts a block where it is. -/
def Call.Cuts (s : Heap) : Call → Prop
  | .realloc (some rmem) newsize => Mem.Cuts s rmem newsize
  | _ => False

/-- The heaps and the ledgers that sessions lead to, and whether no call has cut a block. -/
inductive Reached (passes : Nat) (start : Heap) : (uncut : Prop) → Heap → Ledger → Prop
  | start : Reached passes start True start .empty
  | call {s s' : Heap} {l : Ledger} {uncut : Prop} (call : Call) {reply : Option UInt32}
      : Reached passes start uncut s l
        → call.Legal l
        → call.serve passes s = some (reply, s')
        → Reached passes start (uncut ∧ ¬call.Cuts s) s' (call.after l reply)

/-- The heap serves a ledger. -/
structure Served (narrow : Prop) (s : Heap) (l : Ledger) (segments : List Segment) : Prop where
  inv : Inv narrow s segments
  keeps : Keeps l (· ∈ ranges 12 0 segments) s.mem

variable {s s' : Heap} {l : Ledger} {segments segments' : List Segment} {passes : Nat}
  {narrow narrow' uncut : Prop}

theorem Served.mono (served : Served narrow s l segments) (less : narrow' → narrow)
    : Served narrow' s l segments :=
  ⟨served.inv.mono less, served.keeps⟩

theorem apart_ranges (segments : List Segment) : Apart (· ∈ ranges 12 0 segments) := by
  intro left right member other differ
  have apart := ranges_apart member other differ
  omega

/-- A heap with enough passes for its loops. -/
theorem Served.enough (served : Served narrow s l segments) (passing : s.heapEnd.toNat ≤ passes)
    : segments.length + 1 < passes := by
  have small := served.inv.base.laid.small
  have room := served.inv.base.room
  have length := length_le_extent 12 segments
  rw [served.inv.base.heapEnd, toNat_place (by omega)] at passing
  omega

/-- A pointer that is held is the place of a range in use. -/
theorem Served.range (served : Served narrow s l segments) {p : UInt32} (held : (l.held p.toNat).isSome)
    : ∃ count size,
        l.held p.toNat = some count ∧ count ≤ size ∧ (p.toNat, size) ∈ ranges 12 0 segments := by
  obtain ⟨count, held⟩ := Option.isSome_iff_exists.mp held
  obtain ⟨size, enough, member⟩ := served.keeps.block _ _ held
  exact ⟨count, size, held, enough, member⟩

theorem Inv.toNat_range (inv : Inv narrow s segments) {range : Nat × Nat}
    (member : range ∈ ranges 12 0 segments)
    : (UInt32.ofNat range.1).toNat = range.1 := by
  have small := inv.base.laid.small
  have bounds := range_inside member
  exact toNat_place (by omega)

theorem le_rtAlign {size : UInt32} (alignable : Alignable size.toNat)
    : size.toNat ≤ (rtAlign size).toNat := by
  have multiple := rtAlign_toNat size
  unfold Alignable at alignable
  omega

theorem le_request {size : UInt32} (alignable : Alignable size.toNat)
    : size.toNat ≤ request size :=
  Nat.le_trans (le_rtAlign alignable) (Nat.le_max_right _ _)

theorem rtAlign_eq_zero {size : UInt32} (alignable : Alignable size.toNat)
    : rtAlign size = 0 ↔ size = 0 := by
  have least := le_rtAlign alignable
  constructor
  · intro zero
    rw [zero] at least
    exact UInt32.toNat_inj.mp (Nat.le_zero.mp least)
  · rintro rfl
    rfl

-----------------------------------------------------------------------------------------
-- One call
-----------------------------------------------------------------------------------------

/-- A block is given to a caller. -/
theorem Served.grant (served : Served narrow s l segments) (inv : Inv narrow' s' segments')
    {range : Nat × Nat} (granted : Granted range s s' segments segments') {count : Nat}
    (enough : count ≤ range.2) {content : Nat → Option UInt8}
    (right : ∀ k < count, ∀ byte, content k = some byte → s'.mem (range.1 + k) = byte)
    : Served narrow' s' (l.grant (UInt32.ofNat range.1).toNat count content) segments' := by
  rw [inv.toNat_range ((granted.ranges range).mpr (.inr rfl))]
  exact ⟨inv, served.keeps.grant (apart_ranges segments') granted.ranges enough granted.agree
    right⟩

/-- A block is given back. -/
theorem Served.free (served : Served narrow s l segments) {rmem : Option UInt32} (valid : Valid l rmem)
    : ∃ segments',
        Served narrow (rtFree rmem s) (without l rmem) segments'
        ∧ extent 12 segments' = extent 12 segments := by
  cases rmem with
  | none => exact ⟨segments, served, rfl⟩
  | some p =>
      obtain ⟨count, size, -, -, member⟩ := served.range (valid p rfl)
      obtain ⟨segments', inv, released⟩ := rtFree_spec served.inv member
      rw [UInt32.ofNat_toNat] at inv released
      exact ⟨segments', ⟨inv, served.keeps.release (apart_ranges segments) member released.ranges
        released.agree⟩, released.extent⟩

/-- A block is replaced by another one with its first bytes. -/
theorem Served.moved (served : Served narrow s l segments) (inv : Inv narrow' s' segments')
    {place size count asked : Nat} {new : Nat × Nat} (held : l.held place = some count)
    (enough : count ≤ size) (member : (place, size) ∈ ranges 12 0 segments)
    (moved : Moved (place, size) new asked s s' segments segments') {newsize : Nat}
    (aligned : newsize ≤ asked)
    : Served narrow' s'
        ((l.release place).grant (UInt32.ofNat new.1).toNat newsize
          (l.known place ((l.held place).getD 0)))
        segments' := by
  have rest : Keeps (l.release place)
      (fun block => block ∈ ranges 12 0 segments ∧ block ≠ (place, size)) s.mem :=
    served.keeps.release (apart_ranges segments) member (fun _ => .rfl)
      fun _ _ _ _ _ _ => rfl
  rw [inv.toNat_range ((moved.ranges new).mpr (.inr rfl))]
  refine ⟨inv, rest.grant (apart_ranges segments') moved.ranges
    (Nat.le_trans aligned moved.large) (fun block found => moved.agree block found.1 found.2)
    fun k inside byte known => ?_⟩
  rw [held, Option.getD_some, Ledger.known] at known
  split at known
  case isTrue within =>
    rw [moved.bytes k (Nat.lt_of_lt_of_le within enough) (Nat.lt_of_lt_of_le inside aligned)]
    exact served.keeps.content place count held _ (Nat.le_add_right _ _)
      (Nat.add_lt_add_left within _) byte known
  case isFalse => cases known

/-- A call ends, and the heap behind it serves the ledger behind it. -/
def Answers (passes : Nat) (narrow : Prop) (s : Heap) (l : Ledger) (segments : List Segment)
    (call : Call)
    : Prop :=
  ∃ reply s' segments',
    call.serve passes s = some (reply, s')
    ∧ extent 12 segments' = extent 12 segments
    ∧ Served (narrow ∧ ¬call.Cuts s) s' (call.after l reply) segments'

section Answers

variable (served : Served narrow s l segments) (passing : s.heapEnd.toNat ≤ passes)

include served passing

theorem serve_malloc {size : UInt32} {count : Nat} (enough : count ≤ request size)
    : ∃ reply s' segments',
        rtMalloc passes size s = some (reply, s')
        ∧ extent 12 segments' = extent 12 segments
        ∧ (reply = none ∧ Served narrow s' l segments'
          ∨ ∃ range,
            reply = some (.ofNat range.1)
            ∧ Inv narrow s' segments'
            ∧ Granted range s s' segments segments'
            ∧ count ≤ range.2) := by
  rcases rtMalloc_spec served.inv (served.enough passing) size with ⟨-, ran⟩ |
    ⟨-, range, s', segments', ran, inv, granted, large⟩
  · exact ⟨none, s, segments, ran, rfl, .inl ⟨rfl, served⟩⟩
  · exact ⟨_, s', segments', ran, granted.extent,
      .inr ⟨range, rfl, inv, granted, Nat.le_trans enough large⟩⟩

theorem answers_malloc {size : UInt32} (alignable : Alignable size.toNat)
    : Answers passes narrow s l segments (.malloc size) := by
  obtain ⟨reply, s', segments', ran, same, ⟨rfl, kept⟩ | ⟨range, rfl, inv, granted, large⟩⟩ :=
    serve_malloc served passing (le_request alignable)
  · exact ⟨_, _, _, ran, same, kept.mono And.left⟩
  · have kept : Served narrow s'
        (l.grant (UInt32.ofNat range.1).toNat size.toNat fun _ => none) segments' :=
      served.grant inv granted large fun _ _ _ known => by cases known
    exact ⟨_, _, _, ran, same, kept.mono And.left⟩

theorem answers_calloc {count size : UInt32} (legal : Alignable (count.toNat * size.toNat))
    : Answers passes narrow s l segments (.calloc count size) := by
  have product : (count * size).toNat = count.toNat * size.toNat := by
    unfold Alignable at legal
    rw [UInt32.toNat_mul, Nat.mod_eq_of_lt (by omega)]
  have alignable : Alignable (count * size).toNat := by rwa [product]
  have length : (List.replicate (count * size).toNat (0 : UInt8)).length
      = (count * size).toNat := List.length_replicate
  obtain ⟨reply, s', segments', ran, same, ⟨rfl, kept⟩ | ⟨range, rfl, inv, granted, large⟩⟩ :=
    serve_malloc served passing (le_request alignable)
  · refine ⟨none, s', segments', ?_, same, kept.mono And.left⟩
    rw [Call.serve, rtCalloc, ran]
    rfl
  · have member := (granted.ranges range).mpr (.inr rfl)
    have filled := granted.fill (List.replicate (count * size).toNat 0) (by rwa [length])
    have inv' := inv.store member (List.replicate (count * size).toNat 0) (Nat.le_refl _)
      (by rw [length]; omega)
    have kept : Served narrow _
        (l.grant (UInt32.ofNat range.1).toNat (count * size).toNat fun _ => some 0) segments' :=
      served.grant inv' filled large fun k inside byte known => by
        have bound : k < (List.replicate (count * size).toNat (0 : UInt8)).length := by
          rwa [length]
        rw [← Option.some.inj known]
        exact (store_at _ _ bound).trans (List.getElem_replicate bound)
    rw [product] at kept
    refine ⟨some (.ofNat range.1), _, segments', ?_, same, kept.mono And.left⟩
    rw [Call.serve, rtCalloc, ran, ← product]
    dsimp only [bind, Option.bind, pure]
    rw [inv.toNat_range member]

theorem answers_realloc_null {newsize : UInt32} (alignable : Alignable newsize.toNat)
    : Answers passes narrow s l segments (.realloc none newsize) := by
  have unchanged : Call.after l (.realloc none newsize) none = l := ite_self l
  by_cases tooLarge : s.memSizeAligned < rtAlign newsize
  · refine ⟨none, s, segments, if_pos tooLarge, rfl, ?_⟩
    rw [unchanged]
    exact served.mono And.left
  · by_cases empty : rtAlign newsize = 0
    · refine ⟨none, s, segments, ?_, rfl, ?_⟩
      · exact (if_neg tooLarge).trans (if_pos empty)
      · rw [unchanged]
        exact served.mono And.left
    · have again : newsize.toNat ≤ request (rtAlign newsize) := by
        refine Nat.le_trans (le_rtAlign alignable) ?_
        rw [request, rtAlign_rtAlign]
        exact Nat.le_max_right _ _
      have call : rtRealloc passes none newsize s = rtMalloc passes (rtAlign newsize) s :=
        (if_neg tooLarge).trans (if_neg empty)
      obtain ⟨reply, s', segments', ran, same,
        ⟨rfl, kept⟩ | ⟨range, rfl, inv, granted, large⟩⟩ :=
        serve_malloc served passing again
      · refine ⟨none, s', segments', call.trans ran, same, ?_⟩
        rw [unchanged]
        exact kept.mono And.left
      · have kept : Served narrow s'
            (l.grant (UInt32.ofNat range.1).toNat newsize.toNat fun _ => none) segments' :=
          served.grant inv granted large fun _ _ _ known => by cases known
        exact ⟨_, s', segments', call.trans ran, same, kept.mono And.left⟩

theorem answers_realloc {p newsize : UInt32} (valid : Valid l (some p))
    (alignable : Alignable newsize.toNat)
    : Answers passes narrow s l segments (.realloc (some p) newsize) := by
  have nothing := rtAlign_eq_zero alignable
  obtain ⟨count, size, held, enough, member⟩ := served.range (valid p rfl)
  have cases' := rtRealloc_spec served.inv (served.enough passing) member newsize
  rw [UInt32.ofNat_toNat] at cases'
  rcases cases' with ⟨some, ran⟩ | ⟨none, ran⟩ | ⟨new, s', segments', ran, inv, moved⟩
  · refine ⟨_, s, segments, ran, rfl, ?_⟩
    rw [Call.after, if_neg (mt nothing.mpr some)]
    exact served.mono And.left
  · obtain ⟨segments', freed, same⟩ := served.free valid
    refine ⟨_, _, segments', ran, same, ?_⟩
    rw [Call.after, if_pos (nothing.mp none)]
    exact freed.mono And.left
  · exact ⟨_, s', segments', ran, moved.extent,
      served.moved inv held enough member moved (le_rtAlign alignable)⟩

/-- Every legal call is answered. -/
theorem Served.call {call : Call} (legal : call.Legal l) : Answers passes narrow s l segments call := by
  cases call with
  | malloc size => exact answers_malloc served passing legal
  | calloc count size => exact answers_calloc served passing legal
  | realloc rmem newsize =>
      cases rmem with
      | none => exact answers_realloc_null served passing legal.2
      | some p => exact answers_realloc served passing legal.1 legal.2
  | free rmem =>
      obtain ⟨segments', freed, same⟩ := served.free legal
      exact ⟨none, _, segments', rfl, same, freed.mono And.left⟩
  | store place bytes =>
      obtain ⟨start, count, held, low, high⟩ := legal
      obtain ⟨size, enough, member⟩ := served.keeps.block start count held
      have inv := served.inv.store member bytes low (by dsimp only; omega)
      exact ⟨none, _, segments, rfl, rfl, inv.mono And.left, served.keeps.write place bytes⟩

end Answers

-----------------------------------------------------------------------------------------
-- rt_system_heap_init
-----------------------------------------------------------------------------------------

theorem rtAlignDown_toNat (size : UInt32) : (rtAlignDown size).toNat = size.toNat / 4 * 4 := by
  have cut := BitField.and_field size.toNat 2 30
  have bound := size.toNat_lt
  rw [rtAlignDown, UInt32.toNat_and, Nat.and_comm]
  refine Eq.trans cut ?_
  rw [Nat.mod_eq_of_lt (by omega)]
  rfl

theorem extent_single (size : Nat) (used : Bool) : extent 12 [{ size, used }] = size + 12 :=
  Nat.add_comm 12 size

/-- The headers of a new heap are those of one free block. -/
theorem laid_fresh (bytes : Memory) {size : Nat} (small : size + 24 < 2 ^ 32)
    : Laid
        (put
          (put bytes 0 { magic := HEAP_MAGIC, used := 0, next := .ofNat (size + 12), prev := 0 })
          (.ofNat (size + 12))
          {
            magic := HEAP_MAGIC
            used := 1
            next := .ofNat (size + 12)
            prev := .ofNat (size + 12)
          })
        [{ size, used := false }] := by
  have whole := extent_single size false
  have next : 0 + 12 + size = size + 12 := by omega
  refine ⟨⟨⟨?_, trivial⟩, .ofNat (size + 12), ?_⟩, by omega⟩
  · rw [tag, next]
    refine (header_put_apart (.inl ?_)).trans (header_put _ _ _)
    rw [toNat_place (by omega), toNat_place (by omega)]
    omega
  · rw [Nat.zero_add, whole]
    exact header_put _ _ _

/-- A new heap is one free block, where it has room for a smallest one. -/
theorem rtSystemHeapInit_spec {beginAddr endAddr : UInt32} {bytes : Memory} {start : Heap}
    (began : rtSystemHeapInit beginAddr endAddr bytes s = some start) (unused : s.usedMem = 0)
    (room : 12 ≤ start.memSizeAligned.toNat)
    : Inv True start [{ size := start.memSizeAligned.toNat, used := false }] := by
  unfold rtSystemHeapInit at began
  dsimp only at began
  split at began
  case isFalse => cases began
  case isTrue fits =>
    have first := rtAlign_toNat beginAddr
    have last := rtAlignDown_toNat endAddr
    have bound := endAddr.toNat_lt
    generalize rtAlign beginAddr = beginAlign at *
    generalize rtAlignDown endAddr = endAlign at *
    obtain ⟨above, below⟩ := fits
    have ahead : 2 * SIZEOF_STRUCT_MEM ≤ endAlign := UInt32.le_of_lt above
    rw [UInt32.le_iff_toNat_le, UInt32.toNat_sub_of_le _ _ ahead] at below
    have behind : beginAlign ≤ endAlign := by
      rw [UInt32.le_iff_toNat_le]
      omega
    have headers : (2 * SIZEOF_STRUCT_MEM).toNat = 24 := rfl
    have between : (endAlign - beginAlign).toNat = endAlign.toNat - beginAlign.toNat :=
      UInt32.toNat_sub_of_le _ _ behind
    have size : (endAlign - beginAlign - 2 * SIZEOF_STRUCT_MEM).toNat
        = endAlign.toNat - beginAlign.toNat - 24 := by
      rw [UInt32.toNat_sub_of_le, between, headers]
      rw [UInt32.le_iff_toNat_le, between, headers]
      rw [UInt32.le_iff_toNat_le, headers] at ahead
      omega
    obtain rfl := Option.some.inj began
    dsimp only at room ⊢
    have aligned : (endAlign - beginAlign - 2 * SIZEOF_STRUCT_MEM).toNat % 4 = 0 := by omega
    have word : endAlign - beginAlign - 2 * SIZEOF_STRUCT_MEM
        = .ofNat (endAlign - beginAlign - 2 * SIZEOF_STRUCT_MEM).toNat :=
      UInt32.ofNat_toNat.symm
    generalize (endAlign - beginAlign - 2 * SIZEOF_STRUCT_MEM).toNat = free at *
    rw [word]
    have whole := extent_single free false
    have ends : UInt32.ofNat free + SIZEOF_STRUCT_MEM = .ofNat (free + 12) :=
      (UInt32.ofNat_add free 12).symm
    rw [ends]
    exact
      {
        base :=
          {
            laid := laid_fresh bytes (by omega)
            heapEnd := by rw [whole]
            size := by rw [whole, Nat.add_sub_cancel]
            room := by omega
            sized := fun segment member => by
              obtain rfl := List.mem_singleton.mp member
              dsimp only
              omega
            usedMem := unused
          }
        lowest := ⟨.inl (.head _), fun _ _ _ => Nat.zero_le _⟩
        coalesced := .singleton _
      }

-----------------------------------------------------------------------------------------
-- Sessions
-----------------------------------------------------------------------------------------

/-- Every state of a session serves its ledger. -/
theorem Reached.served {start : Heap} {segments : List Segment}
    (first : Served True start .empty segments) (passing : start.heapEnd.toNat ≤ passes)
    (reached : Reached passes start uncut s l)
    : s.heapEnd = start.heapEnd ∧ ∃ segments, Served uncut s l segments := by
  induction reached with
  | start => exact ⟨rfl, segments, first⟩
  | call _ _ legal ran ih =>
      obtain ⟨same, segments, served⟩ := ih
      rw [← same] at passing
      obtain ⟨reply, s', segments', ran', extent, served'⟩ := served.call passing legal
      obtain ⟨rfl, rfl⟩ := Prod.mk.inj (Option.some.inj (ran.symm.trans ran'))
      refine ⟨?_, segments', served'⟩
      rw [← same, served'.inv.base.heapEnd, served.inv.base.heapEnd, extent]

theorem Served.fresh {start : Heap} {size : Nat}
    (inv : Inv True start [{ size, used := false }])
    : Served True start .empty [{ size, used := false }] where
  inv := inv
  keeps :=
    {
      block := fun _ _ held => by cases held
      owner := fun _ member => by cases member
      content := fun _ _ held => by cases held
    }

/-- What the heap owes its callers: their blocks are aligned, inside the heap and apart, and hold
what they were left with.
-/
structure Sound (s : Heap) (l : Ledger) : Prop where
  inside : ∀ place count, l.held place = some count →
    place % 4 = 0 ∧ 12 ≤ place ∧ place + count ≤ s.heapEnd.toNat
  apart : ∀ place count other length, l.held place = some count → l.held other = some length →
    place ≠ other → place + count + 12 ≤ other ∨ other + length + 12 ≤ place
  kept : ∀ place count, l.held place = some count → ∀ i, place ≤ i → i < place + count →
    ∀ byte, l.content i = some byte → s.mem i = byte

theorem Served.sound (served : Served narrow s l segments) : Sound s l where
  inside place count held := by
    obtain ⟨size, enough, member⟩ := served.keeps.block place count held
    have bounds := range_inside member
    have small := served.inv.base.laid.small
    have ends : s.heapEnd.toNat = extent 12 segments := by
      rw [served.inv.base.heapEnd, toNat_place (by omega)]
    obtain ⟨before, after, shape, placed⟩ := exists_of_mem_ranges member
    have whole : 4 ∣ extent 12 before := dvd_extent (by decide) fun segment found => by
      have member : segment ∈ segments := by
        rw [shape]
        exact List.mem_append_left _ found
      exact Nat.dvd_of_mod_eq_zero (served.inv.base.sized segment member).2
    dsimp only at placed bounds
    omega
  apart place count other length held otherHeld differ := by
    obtain ⟨size, enough, member⟩ := served.keeps.block place count held
    obtain ⟨otherSize, otherEnough, otherMember⟩ := served.keeps.block other length otherHeld
    have apart := ranges_apart member otherMember fun same => differ (congrArg Prod.fst same)
    dsimp only at apart
    omega
  kept := served.keeps.content

/-- The variables of mem.c before rt_system_heap_init. -/
def idleHeap : Heap :=
  {
    mem := fun _ => 0
    heapEnd := 0
    lfree := 0
    memSizeAligned := 0
    usedMem := 0
    maxMem := 0
  }

/-- A heap of 128 bytes. -/
def smallHeap : Heap :=
  (rtSystemHeapInit 0x20000000 0x20000080 (fun _ => 0xff) idleHeap).getD idleHeap

theorem smallHeap_began
    : rtSystemHeapInit 0x20000000 0x20000080 (fun _ => 0xff) idleHeap = some smallHeap :=
  rfl

theorem alignable_eight : Alignable (8 : UInt32).toNat := by
  unfold Alignable
  decide

/-- Nothing in the whole heap is free for a request. -/
def Full (s : Heap) (segments : List Segment) (size : UInt32) : Prop :=
  size = 0
  ∨ s.memSizeAligned < rtAlign size
  ∨ ∀ before free after,
      segments = before ++ { size := free, used := false } :: after
      → request size ≤ free
      → s.memSizeAligned.toNat ≤ extent 12 before + request size

section Session

variable {beginAddr endAddr : UInt32} {bytes : Memory} {idle start : Heap}
  (began : rtSystemHeapInit beginAddr endAddr bytes idle = some start) (unused : idle.usedMem = 0)
  (room : 12 ≤ start.memSizeAligned.toNat) (passing : start.heapEnd.toNat ≤ passes)
  (reached : Reached passes start uncut s l)

include began unused room passing reached

/-- In every session the heap owes nothing, and answers the next call. -/
theorem session_sound
    : Sound s l
      ∧ s.heapEnd = start.heapEnd
      ∧ ∀ call : Call, call.Legal l → (call.serve passes s).isSome := by
  obtain ⟨same, segments, served⟩ :=
    reached.served (.fresh (rtSystemHeapInit_spec began unused room)) passing
  refine ⟨served.sound, same, fun call legal => ?_⟩
  rw [← same] at passing
  obtain ⟨reply, s', segments', ran, -, -⟩ := served.call passing legal
  rw [ran]
  rfl

omit began unused room passing reached in
/-- A block that grows moves with its bytes. -/
theorem session_sound_regrown
    : ∃ uncut s l,
        Reached 128 smallHeap uncut s l
        ∧ Sound s l
        ∧ l.held 36 = some 20
        ∧ l.content 37 = some 2
        ∧ s.mem 37 = 2 := by
  obtain ⟨s₁, s₂, s₃, given, written, moved⟩ : ∃ s₁ s₂ s₃,
      (Call.malloc 8).serve 128 smallHeap = some (some 12, s₁)
      ∧ (Call.store 12 [1, 2]).serve 128 s₁ = some (none, s₂)
      ∧ (Call.realloc (some 12) 20).serve 128 s₂ = some (some 36, s₃) :=
    ⟨_, _, _, rfl, rfl, rfl⟩
  have first := Reached.call (.malloc 8) .start alignable_eight given
  have second := Reached.call (.store 12 [1, 2]) first
    ⟨12, 8, rfl, by decide, by decide⟩ written
  have third := Reached.call (.realloc (some 12) 20) second
    ⟨by rintro _ ⟨⟩; rfl, by unfold Alignable; decide⟩ moved
  have sound := (session_sound smallHeap_began rfl (by decide) (by decide) third).1
  exact ⟨_, _, _, third, sound, rfl, rfl, sound.kept 36 20 rfl 37 (by decide) (by decide) 2 rfl⟩

/-- A block that rt_malloc returns is as large as asked for exactly where RT_ALIGN does not wrap.
-/
theorem session_mallocHolds {size p : UInt32}
    (ran : rtMalloc passes size s = some (some p, s'))
    : p.toNat + size.toNat ≤ (header s'.mem (p - SIZEOF_STRUCT_MEM)).next.toNat
      ↔ Alignable size.toNat := by
  obtain ⟨same, segments, served⟩ :=
    reached.served (.fresh (rtSystemHeapInit_spec began unused room)) passing
  rw [← same] at passing
  rcases rtMalloc_spec served.inv (served.enough passing) size with ⟨-, refused⟩ |
    ⟨-, range, after, segments', granting, inv, granted, large⟩
  · rw [refused] at ran
    cases ran
  obtain ⟨reply, rfl⟩ := Prod.mk.inj (Option.some.inj (granting.symm.trans ran))
  obtain rfl := Option.some.inj reply
  have small := inv.base.laid.small
  have member := (granted.ranges range).mpr (.inr rfl)
  have bounds := range_inside member
  have placed := inv.toNat_range member
  obtain ⟨before, tail, shape, here⟩ := exists_of_mem_ranges member
  rw [shape] at inv
  have block : UInt32.ofNat range.1 - SIZEOF_STRUCT_MEM = .ofNat (extent 12 before) := by
    rw [here, Nat.zero_add, before_eq]
  rw [block, inv.base.laid.next.1, placed, toNat_place (by dsimp only; omega)]
  dsimp only
  constructor
  · intro fits
    unfold Alignable
    omega
  · intro alignable
    have enough := le_request alignable
    omega

omit began unused room passing reached in
/-- A request of 4 GiB gets a block of 12 bytes. -/
theorem session_mallocHolds_wrapped
    : ∃ s',
        rtMalloc 128 0xffffffff smallHeap = some (some 12, s')
        ∧ ¬12 + (0xffffffff : UInt32).toNat
          ≤ (header s'.mem (12 - SIZEOF_STRUCT_MEM)).next.toNat := by
  obtain ⟨s', ran⟩ : ∃ s', rtMalloc 128 0xffffffff smallHeap = some (some 12, s') := ⟨_, rfl⟩
  refine ⟨s', ran, fun holds => ?_⟩
  have alignable := (session_mallocHolds smallHeap_began rfl (by decide) (by decide) .start ran).mp
    holds
  unfold Alignable at alignable
  exact absurd alignable (by decide)

/-- As long as no block was cut where it is, rt_malloc refuses a request exactly when the whole
heap has no free block for it.
-/
theorem session_mallocRefuses (kept : uncut)
    : ∃ segments,
        Laid s.mem segments
        ∧ ∀ size, (∃ s', rtMalloc passes size s = some (none, s')) ↔ Full s segments size := by
  obtain ⟨same, segments, served⟩ :=
    reached.served (.fresh (rtSystemHeapInit_spec began unused room)) passing
  rw [← same] at passing
  refine ⟨segments, served.inv.base.laid, fun size => ?_⟩
  have refused : Refused s segments size ↔ Full s segments size := by
    refine or_congr_right (or_congr_right ⟨fun none before free after shape => ?_,
      fun none before free after shape _ => none before free after shape⟩)
    have hole := mem_holes_here 12 0 free before after
    rw [← shape, Nat.zero_add] at hole
    exact none before free after shape (served.inv.lowest.low kept _ hole)
  rw [← refused]
  rcases rtMalloc_spec served.inv (served.enough passing) size with ⟨refusal, ran⟩ |
    ⟨granting, range, after, segments', ran, -⟩
  · exact ⟨fun _ => refusal, fun _ => ⟨s, ran⟩⟩
  · refine ⟨?_, fun refusal => absurd refusal granting⟩
    rintro ⟨s', refusing⟩
    rw [ran] at refusing
    cases refusing

omit began unused room passing reached in
/-- A request that is larger than what the heap has left behind a block. -/
theorem session_mallocRefuses_larger
    : ∃ uncut s l segments,
        Reached 128 smallHeap uncut s l
        ∧ uncut
        ∧ Laid s.mem segments
        ∧ Full s segments 100 := by
  obtain ⟨s₁, s₂, given, refused⟩ : ∃ s₁ s₂,
      (Call.malloc 8).serve 128 smallHeap = some (some 12, s₁)
      ∧ rtMalloc 128 100 s₁ = some (none, s₂) :=
    ⟨_, _, rfl, rfl⟩
  have reached := Reached.call (.malloc 8) .start alignable_eight given
  obtain ⟨segments, laid, refuses⟩ :=
    session_mallocRefuses smallHeap_began rfl (by decide) (by decide) reached ⟨trivial, id⟩
  exact ⟨_, s₁, _, segments, reached, ⟨trivial, id⟩, laid, (refuses 100).mp ⟨s₂, refused⟩⟩

/-- When everything has been given back, the heap is one free block as it was. -/
theorem session_givenBack (nothing : ∀ place, l.held place = none)
    : header s.mem 0
        = { magic := HEAP_MAGIC, used := 0, next := start.heapEnd, prev := 0 }
      ∧ s.usedMem = 0 := by
  obtain ⟨same, segments, served⟩ :=
    reached.served (.fresh (rtSystemHeapInit_spec began unused room)) passing
  have base := served.inv.base
  have empty : usage 12 segments = 0 := usage_eq_zero fun range member => by
    have held := served.keeps.owner range member
    rw [nothing] at held
    cases held
  have usedMem : s.usedMem = 0 := by
    rw [base.usedMem, empty]
    rfl
  refine ⟨?_, usedMem⟩
  have length := served.inv.coalesced.single empty (by decide)
  have closed := base.laid.closed
  have ends := base.heapEnd
  have large := base.room
  rw [← same, ends]
  match segments, length with
  | [], _ =>
      rw [extent] at large
      omega
  | [{ size, used }], _ =>
      rw [usage, usage] at empty
      cases used with
      | true =>
          rw [if_pos rfl] at empty
          omega
      | false =>
          rw [extent_single]
          refine closed.linked.1.trans ?_
          rw [tag, Nat.zero_add, Nat.add_comm 12]
          rfl

omit began unused room passing reached in
/-- One block that is given and given back. -/
theorem session_givenBack_one
    : ∃ uncut s l,
        Reached 128 smallHeap uncut s l
        ∧ (∀ place, l.held place = none)
        ∧ header s.mem 0
          = { magic := HEAP_MAGIC, used := 0, next := smallHeap.heapEnd, prev := 0 }
        ∧ s.usedMem = 0 := by
  obtain ⟨s₁, s₂, given, freed⟩ : ∃ s₁ s₂,
      (Call.malloc 8).serve 128 smallHeap = some (some 12, s₁)
      ∧ (Call.free (some 12)).serve 128 s₁ = some (none, s₂) :=
    ⟨_, _, rfl, rfl⟩
  have first := Reached.call (.malloc 8) .start alignable_eight given
  have second := Reached.call (.free (some 12)) first (by rintro _ ⟨⟩; rfl) freed
  have nothing (place : Nat)
      : (Call.after (Call.after .empty (.malloc 8) (some 12)) (.free (some 12)) none).held place
        = none := by
    by_cases here : place = 12
    · exact here ▸ Ledger.release_held_self _
    · exact (Ledger.release_held_of_ne _ here).trans
        (Ledger.grant_held_of_ne .empty 8 (fun _ => none) here)
  exact ⟨_, _, _, second, nothing,
    session_givenBack smallHeap_began rfl (by decide) (by decide) second nothing⟩

end Session

end At32.Mem
