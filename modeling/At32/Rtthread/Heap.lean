import At32.Lib.ByteMemory
import At32.Lib.LittleEndian
import At32.Lib.Segments

/-! The heap of the kernel: the calls of mem.c on the bytes that they manage, the layout of
these bytes, and what the changes that the calls are made of do to it.
-/

namespace At32.Mem

open ByteMemory LittleEndian Segments

abbrev HEAP_MAGIC : UInt16 := 0x1ea0
abbrev MIN_SIZE : UInt32 := 12
abbrev MIN_SIZE_ALIGNED : UInt32 := 12
abbrev SIZEOF_STRUCT_MEM : UInt32 := 12

/-- RT_ALIGN with RT_ALIGN_SIZE. -/
def rtAlign (size : UInt32) : UInt32 := (size + 4 - 1) &&& ~~~(4 - 1)

/-- RT_ALIGN_DOWN with RT_ALIGN_SIZE. -/
def rtAlignDown (size : UInt32) : UInt32 := size &&& ~~~(4 - 1)

/-- struct heap_mem -/
structure HeapMem where
  magic : UInt16
  used : UInt16
  next : UInt32
  prev : UInt32
  deriving DecidableEq, Repr

def HeapMem.bytes (mem : HeapMem) : List UInt8 :=
  [lowByte mem.magic, highByte mem.magic, lowByte mem.used, highByte mem.used]
    ++ wordBytes mem.next ++ wordBytes mem.prev

/-- The struct heap_mem at heap_ptr[ptr]. -/
def header (m : Memory) (ptr : UInt32) : HeapMem :=
  let p := ptr.toNat
  {
    magic := half (m p) (m (p + 1))
    used := half (m (p + 2)) (m (p + 3))
    next := word (m (p + 4)) (m (p + 5)) (m (p + 6)) (m (p + 7))
    prev := word (m (p + 8)) (m (p + 9)) (m (p + 10)) (m (p + 11))
  }

def put (m : Memory) (ptr : UInt32) (mem : HeapMem) : Memory := store m ptr.toNat mem.bytes

/-- Assignments to fields of the struct heap_mem at heap_ptr[ptr]. -/
def modify (m : Memory) (ptr : UInt32) (change : HeapMem → HeapMem) : Memory :=
  put m ptr (change (header m ptr))

/-- The bytes from heap_ptr on, and the variables of mem.c; pointers are offsets from heap_ptr.
The semaphore, the hooks and what is printed are left out.
-/
structure Heap where
  mem : Memory
  heapEnd : UInt32
  lfree : UInt32
  memSizeAligned : UInt32
  usedMem : UInt32
  maxMem : UInt32

/-- rt_system_heap_init, for the bytes that are in the memory from the aligned begin_addr on;
none where it returns with an error.
-/
def rtSystemHeapInit (beginAddr endAddr : UInt32) (bytes : Memory) (s : Heap) : Option Heap :=
  let beginAlign := rtAlign beginAddr
  let endAlign := rtAlignDown endAddr
  if 2 * SIZEOF_STRUCT_MEM < endAlign ∧ beginAlign ≤ endAlign - 2 * SIZEOF_STRUCT_MEM then
    let memSizeAligned := endAlign - beginAlign - 2 * SIZEOF_STRUCT_MEM
    let heapEnd := memSizeAligned + SIZEOF_STRUCT_MEM
    let mem := put bytes 0 { magic := HEAP_MAGIC, used := 0, next := heapEnd, prev := 0 }
    let mem :=
      put mem heapEnd { magic := HEAP_MAGIC, used := 1, next := heapEnd, prev := heapEnd }
    some { s with mem, heapEnd, lfree := 0, memSizeAligned }
  else
    none

/-- The links when a block takes the next one in. -/
def join (m : Memory) (mem nmem : UInt32) : Memory :=
  let next := (header m nmem).next
  let m := modify m mem fun block => { block with next }
  modify m next fun block => { block with prev := mem }

/-- A block takes the next one in. -/
def absorb (mem nmem : UInt32) (s : Heap) : Heap :=
  { s with
    lfree := if s.lfree = nmem then mem else s.lfree
    mem := join s.mem mem nmem }

/-- The first part of plug_holes. -/
def plugForward (mem : UInt32) (s : Heap) : Heap :=
  let nmem := (header s.mem mem).next
  if mem ≠ nmem ∧ (header s.mem nmem).used = 0 ∧ nmem ≠ s.heapEnd then absorb mem nmem s
  else s

/-- The second part of plug_holes. -/
def plugBackward (mem : UInt32) (s : Heap) : Heap :=
  let pmem := (header s.mem mem).prev
  if pmem ≠ mem ∧ (header s.mem pmem).used = 0 then absorb pmem mem s else s

/-- plug_holes -/
def plugHoles (mem : UInt32) (s : Heap) : Heap := plugBackward mem (plugForward mem s)

/-- What used_mem and max_mem become when a block is taken. -/
def Heap.counted (s : Heap) (bytes : UInt32) : Heap :=
  let usedMem := s.usedMem + bytes
  { s with usedMem, maxMem := if s.maxMem < usedMem then usedMem else s.maxMem }

/-- The block at ptr becomes the one before next, unless this is the last one. -/
def linkBack (m : Memory) (ptr next last : UInt32) : Memory :=
  if next ≠ last then modify m next fun mem => { mem with prev := ptr } else m

/-- The part of rt_malloc and rt_realloc that makes a free block of what is behind (size) bytes
of a block.
-/
def splitBlock (m : Memory) (ptr size last : UInt32) : Memory :=
  let next := (header m ptr).next
  let ptr2 := ptr + SIZEOF_STRUCT_MEM + size
  let m := put m ptr2 { magic := HEAP_MAGIC, used := 0, next, prev := ptr }
  let m := modify m ptr fun mem => { mem with next := ptr2 }
  linkBack m ptr2 next last

/-- The loop of rt_malloc up to a block that fits, with a limit on its passes; the inner none is
its end without one.
-/
def findBlock (m : Memory) (limit size : UInt32) : (passes : Nat) → UInt32 → Option (Option UInt32)
  | 0, _ => none
  | passes + 1, ptr =>
      if ptr < limit then
        let mem := header m ptr
        if mem.used = 0 ∧ size ≤ mem.next - (ptr + SIZEOF_STRUCT_MEM) then some (some ptr)
        else findBlock m limit size passes mem.next
      else some none

/-- What rt_malloc does with the block that it has found. -/
def takeBlock (ptr size : UInt32) (s : Heap) : Heap :=
  let next := (header s.mem ptr).next
  let s :=
    if size + SIZEOF_STRUCT_MEM + MIN_SIZE_ALIGNED ≤ next - (ptr + SIZEOF_STRUCT_MEM) then
      let mem := splitBlock s.mem ptr size (s.memSizeAligned + SIZEOF_STRUCT_MEM)
      { s with mem }.counted (size + SIZEOF_STRUCT_MEM)
    else
      s.counted (next - ptr)
  { s with mem := modify s.mem ptr fun mem => { mem with used := 1, magic := HEAP_MAGIC } }

/-- The loop over lfree in rt_malloc. -/
def nextFree (m : Memory) (heapEnd : UInt32) : (passes : Nat) → UInt32 → Option UInt32
  | 0, _ => none
  | passes + 1, lfree =>
      if (header m lfree).used ≠ 0 ∧ lfree ≠ heapEnd then
        nextFree m heapEnd passes (header m lfree).next
      else some lfree

/-- rt_malloc, with a limit on the passes of its loops: the pointer, none for RT_NULL. -/
def rtMalloc (passes : Nat) (size : UInt32) (s : Heap) : Option (Option UInt32 × Heap) :=
  if size = 0 then
    some (none, s)
  else
    let size := rtAlign size
    if s.memSizeAligned < size then
      some (none, s)
    else
      let size := if size < MIN_SIZE_ALIGNED then MIN_SIZE_ALIGNED else size
      match findBlock s.mem (s.memSizeAligned - size) size passes s.lfree with
      | none => none
      | some none => some (none, s)
      | some (some ptr) =>
          let s := takeBlock ptr size s
          let lfree :=
            if ptr = s.lfree then nextFree s.mem s.heapEnd passes ptr else some s.lfree
          lfree.map fun lfree => (some (ptr + SIZEOF_STRUCT_MEM), { s with lfree })

/-- rt_free; none is RT_NULL. -/
def rtFree (rmem : Option UInt32) (s : Heap) : Heap :=
  match rmem with
  | none => s
  | some rmem =>
      -- An address below heap_ptr is an offset behind the heap.
      if s.heapEnd ≤ rmem then s
      else
        let mem := rmem - SIZEOF_STRUCT_MEM
        let next := (header s.mem mem).next
        plugHoles mem
          { s with
            mem := modify s.mem mem fun block => { block with used := 0, magic := HEAP_MAGIC }
            lfree := if mem < s.lfree then mem else s.lfree
            usedMem := s.usedMem - (next - mem) }

/-- rt_realloc -/
def rtRealloc (passes : Nat) (rmem : Option UInt32) (newsize : UInt32) (s : Heap)
    : Option (Option UInt32 × Heap) :=
  let newsize := rtAlign newsize
  if s.memSizeAligned < newsize then
    some (none, s)
  else if newsize = 0 then
    some (none, rtFree rmem s)
  else
    match rmem with
    | none => rtMalloc passes newsize s
    | some rmem =>
        if s.heapEnd ≤ rmem then
          some (some rmem, s)
        else
          let ptr := rmem - SIZEOF_STRUCT_MEM
          let size := (header s.mem ptr).next - ptr - SIZEOF_STRUCT_MEM
          if size = newsize then
            some (some rmem, s)
          else if newsize + SIZEOF_STRUCT_MEM + MIN_SIZE < size then
            -- Here lfree stays, also when the new free block lies before it.
            let ptr2 := ptr + SIZEOF_STRUCT_MEM + newsize
            let mem := splitBlock s.mem ptr newsize (s.memSizeAligned + SIZEOF_STRUCT_MEM)
            some (some rmem,
              plugHoles ptr2 { s with mem, usedMem := s.usedMem - (size - newsize) })
          else do
            let (nmem, s) ← rtMalloc passes newsize s
            match nmem with
            | none => return (none, s)
            | some nmem =>
                let count := if size < newsize then size else newsize
                let mem := copy s.mem nmem.toNat rmem.toNat count.toNat
                return (some nmem, rtFree (some rmem) { s with mem })

/-- rt_calloc -/
def rtCalloc (passes : Nat) (count size : UInt32) (s : Heap) : Option (Option UInt32 × Heap) := do
  let (p, s) ← rtMalloc passes (count * size) s
  match p with
  | none => return (none, s)
  | some p =>
      let zeros := List.replicate (count * size).toNat 0
      return (some p, { s with mem := store s.mem p.toNat zeros })

-----------------------------------------------------------------------------------------
-- A header in the bytes
-----------------------------------------------------------------------------------------

/-- A header is read from its own bytes only. -/
theorem header_congr {m m' : Memory} {ptr : UInt32} (same : Agree ptr.toNat 12 m m')
    : header m' ptr = header m ptr := by
  have byte (k : Nat) (inside : k < 12) : m' (ptr.toNat + k) = m (ptr.toNat + k) :=
    same _ (Nat.le_add_right _ k) (Nat.add_lt_add_left inside _)
  have first := byte 0 (by decide)
  rw [Nat.add_zero] at first
  simp only [header, first, byte 1 (by decide), byte 2 (by decide), byte 3 (by decide),
    byte 4 (by decide), byte 5 (by decide), byte 6 (by decide), byte 7 (by decide),
    byte 8 (by decide), byte 9 (by decide), byte 10 (by decide), byte 11 (by decide)]

/-- It is read as it was written. -/
theorem header_put (m : Memory) (ptr : UInt32) (mem : HeapMem)
    : header (put m ptr mem) ptr = mem := by
  have byte (k : Nat) (inside : k < 12)
      : store m ptr.toNat mem.bytes (ptr.toNat + k) = mem.bytes.get ⟨k, inside⟩ :=
    store_at m _ inside
  have first := byte 0 (by decide)
  rw [Nat.add_zero] at first
  simp only [header, put, first, byte 1 (by decide), byte 2 (by decide), byte 3 (by decide),
    byte 4 (by decide), byte 5 (by decide), byte 6 (by decide), byte 7 (by decide),
    byte 8 (by decide), byte 9 (by decide), byte 10 (by decide), byte 11 (by decide)]
  calc
    _ = HeapMem.mk (half (lowByte mem.magic) (highByte mem.magic))
          (half (lowByte mem.used) (highByte mem.used))
          (word (mem.next &&& 0xFF).toUInt8 ((mem.next >>> 8) &&& 0xFF).toUInt8
            ((mem.next >>> 16) &&& 0xFF).toUInt8 ((mem.next >>> 24) &&& 0xFF).toUInt8)
          (word (mem.prev &&& 0xFF).toUInt8 ((mem.prev >>> 8) &&& 0xFF).toUInt8
            ((mem.prev >>> 16) &&& 0xFF).toUInt8 ((mem.prev >>> 24) &&& 0xFF).toUInt8) := rfl
    _ = mem := by rw [half_bytes, half_bytes, word_bytes, word_bytes]

theorem put_outside {m : Memory} {ptr : UInt32} {mem : HeapMem} {i : Nat}
    (outside : i < ptr.toNat ∨ ptr.toNat + 12 ≤ i)
    : put m ptr mem i = m i :=
  store_outside outside

/-- A header apart from one that is written. -/
theorem header_put_apart {m : Memory} {ptr other : UInt32} {mem : HeapMem}
    (apart : other.toNat + 12 ≤ ptr.toNat ∨ ptr.toNat + 12 ≤ other.toNat)
    : header (put m ptr mem) other = header m other :=
  header_congr fun _ low high => put_outside (by omega)

-----------------------------------------------------------------------------------------
-- The layout of the blocks
-----------------------------------------------------------------------------------------

/-- What the header of a segment says, at a place and with the place of the one before. -/
def tag (prev place : Nat) (segment : Segment) : HeapMem :=
  {
    magic := HEAP_MAGIC
    used := if segment.used then 1 else 0
    next := .ofNat (place + 12 + segment.size)
    prev := .ofNat prev
  }

/-- The headers of the memory from a place on are those of the segments. -/
def Linked (m : Memory) : (prev place : Nat) → List Segment → Prop
  | _, _, [] => True
  | prev, place, segment :: rest =>
      header m (.ofNat place) = tag prev place segment
      ∧ Linked m place (place + 12 + segment.size) rest

/-- The place of the last segment. -/
def lastPlace : (prev place : Nat) → List Segment → Nat
  | prev, _, [] => prev
  | _, place, segment :: rest => lastPlace place (place + 12 + segment.size) rest

/-- A region up to the end of the heap: its segments, and behind them the header that is always
in use.
-/
structure Closed (m : Memory) (prev place : Nat) (segments : List Segment) : Prop where
  linked : Linked m prev place segments
  last : ∃ prev,
    header m (.ofNat (place + extent 12 segments))
      = {
          magic := HEAP_MAGIC
          used := 1
          next := .ofNat (place + extent 12 segments)
          prev
        }

/-- The whole heap. -/
structure Laid (m : Memory) (segments : List Segment) : Prop where
  closed : Closed m 0 0 segments
  small : extent 12 segments + 12 < 2 ^ 32

theorem toNat_place {place : Nat} (small : place < 2 ^ 32)
    : (UInt32.ofNat place).toNat = place :=
  UInt32.toNat_ofNat_of_lt' small

theorem place_le_iff {a b : Nat} (left : a < 2 ^ 32) (right : b < 2 ^ 32)
    : UInt32.ofNat a ≤ .ofNat b ↔ a ≤ b := by
  rw [UInt32.le_iff_toNat_le, toNat_place left, toNat_place right]

theorem place_lt_iff {a b : Nat} (left : a < 2 ^ 32) (right : b < 2 ^ 32)
    : UInt32.ofNat a < .ofNat b ↔ a < b := by
  rw [UInt32.lt_iff_toNat_lt, toNat_place left, toNat_place right]

theorem place_inj {a b : Nat} (left : a < 2 ^ 32) (right : b < 2 ^ 32)
    : UInt32.ofNat a = .ofNat b ↔ a = b := by
  rw [← UInt32.toNat_inj, toNat_place left, toNat_place right]

/-- A header at a place is read from its own bytes only. -/
theorem header_keep {m m' : Memory} {place : Nat} (small : place < 2 ^ 32)
    (same : ∀ i, place ≤ i → i < place + 12 → m' i = m i)
    : header m' (.ofNat place) = header m (.ofNat place) := by
  refine header_congr fun i low high => ?_
  rw [toNat_place small] at low high
  exact same i low high

variable {m m' : Memory} {prev place : Nat} {before after segments : List Segment}
  {segment left right : Segment}

theorem linked_append (m : Memory) (prev place : Nat) (before after : List Segment)
    : Linked m prev place (before ++ after)
      ↔ Linked m prev place before
        ∧ Linked m (lastPlace prev place before) (place + extent 12 before) after := by
  induction before generalizing prev place with
  | nil => exact (and_iff_right trivial).symm
  | cons segment rest ih =>
      have placed : place + 12 + segment.size + extent 12 rest
          = place + extent 12 (segment :: rest) := by
        rw [extent]
        omega
      rw [List.cons_append, Linked, Linked, ih, placed, and_assoc, lastPlace]

/-- The headers are read from their own bytes only. -/
theorem Linked.congr (linked : Linked m prev place segments)
    (small : place + extent 12 segments ≤ 2 ^ 32)
    (same : ∀ i, InHeader 12 place segments i → m' i = m i)
    : Linked m' prev place segments := by
  induction segments generalizing prev place with
  | nil => trivial
  | cons segment rest ih =>
      rw [extent] at small
      obtain ⟨first, later⟩ := linked
      refine ⟨?_, ih later (by omega) fun i byte => same i (.inr byte)⟩
      rw [← first]
      exact header_keep (by omega) fun i low high => same i (.inl ⟨low, high⟩)

/-- A change before or behind a region leaves its headers. -/
theorem Linked.keep (linked : Linked m prev place segments)
    (small : place + extent 12 segments ≤ 2 ^ 32)
    (same : ∀ i, place ≤ i → i < place + extent 12 segments → m' i = m i)
    : Linked m' prev place segments :=
  linked.congr small fun i byte => same i byte.inside.1 byte.inside.2

theorem closed_append (m : Memory) (prev place : Nat) (before after : List Segment)
    : Closed m prev place (before ++ after)
      ↔ Linked m prev place before
        ∧ Closed m (lastPlace prev place before) (place + extent 12 before) after := by
  have placed : place + extent 12 (before ++ after)
      = place + extent 12 before + extent 12 after := by
    rw [extent_append, Nat.add_assoc]
  constructor
  · rintro ⟨linked, last⟩
    rw [placed] at last
    obtain ⟨first, later⟩ := (linked_append m prev place before after).mp linked
    exact ⟨first, later, last⟩
  · rintro ⟨first, later, last⟩
    rw [← placed] at last
    exact ⟨(linked_append m prev place before after).mpr ⟨first, later⟩, last⟩

theorem Closed.keep (closed : Closed m prev place segments)
    (small : place + extent 12 segments + 12 < 2 ^ 32) (same : ∀ i, place ≤ i → m' i = m i)
    : Closed m' prev place segments := by
  obtain ⟨linked, other, last⟩ := closed
  refine ⟨linked.keep (by omega) fun i low _ => same i low, other, ?_⟩
  rw [← last]
  exact header_keep (by omega) fun i low _ => same i (by omega)

/-- The first header of the region gets another one before it. -/
theorem Closed.relink (closed : Closed m prev place segments)
    (small : place + extent 12 segments + 12 < 2 ^ 32) (other : Nat)
    : Closed (modify m (.ofNat place) fun mem => { mem with prev := .ofNat other }) other place
        segments := by
  obtain ⟨linked, before, last⟩ := closed
  cases segments with
  | nil =>
      refine ⟨trivial, .ofNat other, ?_⟩
      rw [extent, Nat.add_zero] at last ⊢
      rw [modify, header_put, last]
  | cons segment rest =>
      rw [extent] at small last
      obtain ⟨first, later⟩ := linked
      have outside (i : Nat) (behind : place + 12 ≤ i)
          : modify m (.ofNat place) (fun mem => { mem with prev := .ofNat other }) i = m i := by
        refine put_outside (.inr ?_)
        rwa [toNat_place (by omega)]
      refine ⟨⟨?_, later.keep (by omega) fun i low _ => outside i (by omega)⟩, before, ?_⟩
      · rw [modify, header_put, first]
        rfl
      · rw [extent, ← last]
        exact header_keep (by omega) fun i low _ => outside i (by omega)

/-- So it does when the last header is left out, which has nothing behind it. -/
theorem Closed.linkBack (closed : Closed m prev place segments)
    (small : place + extent 12 segments + 12 < 2 ^ 32) (other : Nat)
    : Closed
        (linkBack m (.ofNat other) (.ofNat place) (.ofNat (place + extent 12 segments)))
        other place segments := by
  unfold Mem.linkBack
  split
  · exact closed.relink small other
  case isFalse here =>
    cases segments with
    | nil => exact ⟨trivial, closed.last⟩
    | cons segment rest =>
        rw [extent] at small here
        rw [ne_eq, not_not, place_inj (by omega) (by omega)] at here
        omega

theorem closed_cons (m : Memory) (prev place : Nat) (segment : Segment) (rest : List Segment)
    : Closed m prev place (segment :: rest)
      ↔ header m (.ofNat place) = tag prev place segment
        ∧ Closed m place (place + 12 + segment.size) rest := by
  have placed : place + extent 12 (segment :: rest)
      = place + 12 + segment.size + extent 12 rest := by
    rw [extent]
    omega
  constructor
  · rintro ⟨⟨first, later⟩, last⟩
    rw [placed] at last
    exact ⟨first, later, last⟩
  · rintro ⟨first, later, last⟩
    rw [← placed] at last
    exact ⟨⟨first, later⟩, last⟩

/-- The parts of a heap around a segment. -/
theorem closed_middle (m : Memory) (before : List Segment) (segment : Segment)
    (after : List Segment)
    : Closed m 0 0 (before ++ segment :: after)
      ↔ Linked m 0 0 before
        ∧ header m (.ofNat (extent 12 before))
            = tag (lastPlace 0 0 before) (extent 12 before) segment
        ∧ Closed m (extent 12 before) (extent 12 before + 12 + segment.size) after := by
  rw [closed_append, closed_cons, Nat.zero_add]

theorem extent_middle (segment : Segment) (before after : List Segment)
    : extent 12 (before ++ segment :: after)
      = extent 12 before + (12 + segment.size + extent 12 after) := by
  rw [extent_append, extent]

-----------------------------------------------------------------------------------------
-- The changes
-----------------------------------------------------------------------------------------

/-- Only bytes of the headers of a layout, or of the last one, have changed. -/
def HeadersOnly (segments : List Segment) (m m' : Memory) : Prop :=
  ∀ i < extent 12 segments, ¬InHeader 12 0 segments i → m' i = m i

/-- What is in use keeps its bytes. -/
theorem HeadersOnly.agree (only : HeadersOnly segments m m') {range : Nat × Nat}
    (member : range ∈ ranges 12 0 segments)
    : Agree range.1 range.2 m m' := by
  intro i low high
  have bounds := range_inside member
  exact only i (by omega) (range_not_header member low high)

/-- A byte of the header of a segment. -/
theorem inHeader_middle {i : Nat} (low : extent 12 before ≤ i) (high : i < extent 12 before + 12)
    : InHeader 12 0 (before ++ segment :: after) i := by
  refine (inHeader_append 12 0 before _ i).mpr (.inr (.inl ?_))
  omega

/-- The assignments that mark a block as used or free. -/
def marked (used : Bool) (mem : HeapMem) : HeapMem :=
  { mem with used := if used then 1 else 0, magic := HEAP_MAGIC }

/-- A block is marked. -/
theorem Laid.mark (laid : Laid m (before ++ segment :: after)) (used : Bool)
    : Laid (modify m (.ofNat (extent 12 before)) (marked used))
        (before ++ { segment with used } :: after)
      ∧ HeadersOnly (before ++ segment :: after) m
          (modify m (.ofNat (extent 12 before)) (marked used)) := by
  have small := laid.small
  rw [extent_middle] at small
  have outside (i : Nat) (apart : i < extent 12 before ∨ extent 12 before + 12 ≤ i)
      : modify m (.ofNat (extent 12 before)) (marked used) i = m i := by
    refine put_outside ?_
    rwa [toNat_place (by omega)]
  obtain ⟨first, middle, later⟩ := (closed_middle _ _ _ _).mp laid.closed
  refine ⟨⟨(closed_middle _ _ _ _).mpr ⟨?_, ?_, ?_⟩, ?_⟩, ?_⟩
  · exact first.keep (by omega) fun i _ high => outside i (.inl (by omega))
  · rw [modify, header_put, middle]
    rfl
  · exact later.keep (by omega) fun i low => outside i (.inr (by omega))
  · rw [extent_middle]
    exact small
  · intro i _ apart
    by_contra changed
    refine changed (outside i ?_)
    by_contra inside
    exact apart (inHeader_middle (by omega) (by omega))

/-- A block that is large enough is split; the second part is free. -/
theorem Laid.split (laid : Laid m (before ++ segment :: after)) (size : Nat)
    (fits : size + 12 ≤ segment.size)
    : Laid
        (splitBlock m (.ofNat (extent 12 before)) (.ofNat size)
          (.ofNat (extent 12 (before ++ segment :: after))))
        (before ++ { size, used := segment.used }
          :: { size := segment.size - size - 12, used := false } :: after)
      ∧ HeadersOnly
          (before ++ { size, used := segment.used }
            :: { size := segment.size - size - 12, used := false } :: after)
          m
          (splitBlock m (.ofNat (extent 12 before)) (.ofNat size)
            (.ofNat (extent 12 (before ++ segment :: after)))) := by
  have small := laid.small
  have total := extent_middle segment before after
  obtain ⟨first, middle, later⟩ := (closed_middle _ _ _ _).mp laid.closed
  have read : (header m (.ofNat (extent 12 before))).next
      = .ofNat (extent 12 before + 12 + segment.size) := by
    rw [middle]
    rfl
  have ptr2 : UInt32.ofNat (extent 12 before) + SIZEOF_STRUCT_MEM + .ofNat size
      = .ofNat (extent 12 before + 12 + size) := by
    rw [UInt32.ofNat_add, UInt32.ofNat_add]
    rfl
  simp only [splitBlock, read, ptr2]
  -- the new header, then that of the block, and then that of the next one, if there is one
  generalize made : put m (.ofNat (extent 12 before + 12 + size)) _ = m1
  generalize shortened : modify m1 (.ofNat (extent 12 before)) _ = m2
  generalize linked : linkBack m2 _ _ _ = m3
  have byte1 (i : Nat)
      (apart : i < extent 12 before + 12 + size ∨ extent 12 before + 12 + size + 12 ≤ i)
      : m1 i = m i := by
    rw [← made]
    refine put_outside ?_
    rwa [toNat_place (by omega)]
  have byte2 (i : Nat) (apart : i < extent 12 before ∨ extent 12 before + 12 ≤ i)
      : m2 i = m1 i := by
    rw [← shortened]
    refine put_outside ?_
    rwa [toNat_place (by omega)]
  have byte3 (i : Nat)
      (apart
        : i < extent 12 before + 12 + segment.size
          ∨ extent 12 before + 12 + segment.size + 12 ≤ i)
      : m3 i = m2 i := by
    rw [← linked, linkBack]
    split
    · refine put_outside ?_
      rwa [toNat_place (by omega)]
    · rfl
  have rest : Closed m2 (extent 12 before) (extent 12 before + 12 + segment.size) after :=
    later.keep (by omega) fun i low =>
      (byte2 i (.inr (by omega))).trans (byte1 i (.inr (by omega)))
  have relinked := rest.linkBack (by omega) (extent 12 before + 12 + size)
  have past : extent 12 before + 12 + segment.size + extent 12 after
      = extent 12 (before ++ segment :: after) := by omega
  rw [past, linked] at relinked
  have second : header m3 (.ofNat (extent 12 before + 12 + size))
      = tag (extent 12 before) (extent 12 before + 12 + size)
          { size := segment.size - size - 12, used := false } := by
    have next : extent 12 before + 12 + size + 12 + (segment.size - size - 12)
        = extent 12 before + 12 + segment.size := by omega
    rw [header_keep (m := m1) (by omega) fun i low high =>
      (byte3 i (.inl (by omega))).trans (byte2 i (.inr (by omega))), ← made, header_put, tag, next]
    rfl
  have shorter : header m3 (.ofNat (extent 12 before))
      = tag (lastPlace 0 0 before) (extent 12 before) { size, used := segment.used } := by
    rw [header_keep (m := m2) (by omega) fun i low high => byte3 i (.inl (by omega)), ← shortened,
      modify, header_put,
      header_keep (m := m) (by omega) fun i low high => byte1 i (.inl (by omega)), middle]
    rfl
  refine ⟨⟨(closed_middle _ _ _ _).mpr ⟨?_, shorter, ?_⟩, ?_⟩, ?_⟩
  · exact first.keep (by omega) fun i _ high =>
      ((byte3 i (.inl (by omega))).trans (byte2 i (.inl (by omega)))).trans
        (byte1 i (.inl (by omega)))
  · refine (closed_cons _ _ _ _ _).mpr ⟨second, ?_⟩
    have next : extent 12 before + 12 + size + 12 + (segment.size - size - 12)
        = extent 12 before + 12 + segment.size := by omega
    rw [next]
    exact relinked
  · rw [extent_middle, extent]
    dsimp only
    omega
  · intro i inside apart
    rw [extent_middle, extent] at inside
    rw [inHeader_append, InHeader, InHeader, not_or, not_or, not_or, Nat.zero_add] at apart
    obtain ⟨-, notFirst, notSecond, notLater⟩ := apart
    dsimp only at inside notFirst notSecond notLater
    have notNext : ¬(extent 12 before + 12 + segment.size ≤ i
        ∧ i < extent 12 before + 12 + segment.size + 12) := by
      intro here
      cases after with
      | nil =>
          rw [extent] at inside
          omega
      | cons next rest => exact notLater (.inl (by omega))
    exact ((byte3 i (by omega)).trans (byte2 i (by omega))).trans (byte1 i (by omega))

/-- A block takes the next one in. -/
theorem Laid.join (laid : Laid m (before ++ left :: right :: after))
    : Laid (join m (.ofNat (extent 12 before)) (.ofNat (extent 12 before + 12 + left.size)))
        (before ++ { size := left.size + 12 + right.size, used := left.used } :: after)
      ∧ HeadersOnly (before ++ left :: right :: after) m
          (join m (.ofNat (extent 12 before))
            (.ofNat (extent 12 before + 12 + left.size))) := by
  have small := laid.small
  have total := extent_middle left before (right :: after)
  rw [extent] at total
  obtain ⟨first, middle, later⟩ := (closed_middle _ _ _ _).mp laid.closed
  obtain ⟨second, rest⟩ := (closed_cons _ _ _ _ _).mp later
  have next : extent 12 before + 12 + left.size + 12 + right.size
      = extent 12 before + 12 + (left.size + 12 + right.size) := by omega
  have read : (header m (.ofNat (extent 12 before + 12 + left.size))).next
      = .ofNat (extent 12 before + 12 + (left.size + 12 + right.size)) := by
    rw [second, tag, next]
  rw [next] at rest
  simp only [Mem.join, read]
  generalize lengthened : modify m (.ofNat (extent 12 before)) _ = m1
  have byte1 (i : Nat) (apart : i < extent 12 before ∨ extent 12 before + 12 ≤ i)
      : m1 i = m i := by
    rw [← lengthened]
    refine put_outside ?_
    rwa [toNat_place (by omega)]
  have kept : Closed m1 (extent 12 before + 12 + left.size)
      (extent 12 before + 12 + (left.size + 12 + right.size)) after :=
    rest.keep (by omega) fun i low => byte1 i (.inr (by omega))
  have relinked := kept.relink (by omega) (extent 12 before)
  generalize linked : modify m1 _ _ = m2 at relinked ⊢
  have byte2 (i : Nat)
      (apart
        : i < extent 12 before + 12 + (left.size + 12 + right.size)
          ∨ extent 12 before + 12 + (left.size + 12 + right.size) + 12 ≤ i)
      : m2 i = m1 i := by
    rw [← linked]
    refine put_outside ?_
    rwa [toNat_place (by omega)]
  have longer : header m2 (.ofNat (extent 12 before))
      = tag (lastPlace 0 0 before) (extent 12 before)
          { size := left.size + 12 + right.size, used := left.used } := by
    rw [header_keep (m := m1) (by omega) fun i low high => byte2 i (.inl (by omega)),
      ← lengthened, modify, header_put, middle]
    rfl
  refine ⟨⟨(closed_middle _ _ _ _).mpr ⟨?_, longer, relinked⟩, ?_⟩, ?_⟩
  · exact first.keep (by omega) fun i _ high =>
      (byte2 i (.inl (by omega))).trans (byte1 i (.inl (by omega)))
  · rw [extent_middle]
    dsimp only
    omega
  · intro i inside apart
    rw [inHeader_append, InHeader, InHeader, not_or, not_or, not_or, Nat.zero_add] at apart
    obtain ⟨-, notFirst, notSecond, notLater⟩ := apart
    have notNext : ¬(extent 12 before + 12 + (left.size + 12 + right.size) ≤ i
        ∧ i < extent 12 before + 12 + (left.size + 12 + right.size) + 12) := by
      intro here
      cases after with
      | nil =>
          rw [extent] at total
          omega
      | cons next rest => exact notLater (.inl (by omega))
    exact (byte2 i (by omega)).trans (byte1 i (by omega))

end At32.Mem
