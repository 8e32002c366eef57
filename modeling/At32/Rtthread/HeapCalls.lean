import At32.Lib.BitField
import At32.Rtthread.Heap

/-! What the calls of the heap do to its blocks: the invariant of the heap, and for every call
which ranges are in use behind it, and that these keep their bytes.
-/

namespace At32.Mem

open ByteMemory Segments

variable {m : Memory} {s : Heap} {prev place : Nat} {before after segments : List Segment}
  {segment left right : Segment}

-----------------------------------------------------------------------------------------
-- The invariant
-----------------------------------------------------------------------------------------

/-- The variables of the heap are those of a layout, lfree apart. -/
structure Base (s : Heap) (segments : List Segment) : Prop where
  laid : Laid s.mem segments
  heapEnd : s.heapEnd = .ofNat (extent 12 segments)
  size : s.memSizeAligned = .ofNat (extent 12 segments - 12)
  room : 24 ≤ extent 12 segments
  sized : ∀ segment ∈ segments, 0 < segment.size ∧ segment.size % 4 = 0
  usedMem : s.usedMem = .ofNat (usage 12 segments)

/-- What holds of all segments, around one. -/
theorem forall_middle {P : Segment → Prop}
    : (∀ other ∈ before ++ segment :: after, P other)
      ↔ (∀ other ∈ before, P other) ∧ P segment ∧ ∀ other ∈ after, P other := by
  rw [List.forall_mem_append, List.forall_mem_cons]

/-- lfree is a free block or the end, and in the narrow sense the lowest one. -/
structure Lowest (narrow : Prop) (lfree : UInt32) (segments : List Segment) : Prop where
  hole : lfree.toNat ∈ holes 12 0 segments ∨ lfree.toNat = extent 12 segments
  low : narrow → ∀ hole ∈ holes 12 0 segments, lfree.toNat ≤ hole

/-- The invariant of the heap. -/
structure Inv (narrow : Prop) (s : Heap) (segments : List Segment) : Prop where
  base : Base s segments
  lowest : Lowest narrow s.lfree segments
  coalesced : Coalesced segments

/-- Another layout with the same ranges in use, which keep their bytes. -/
structure Same (s s' : Heap) (segments segments' : List Segment) : Prop where
  extent : extent 12 segments' = extent 12 segments
  ranges : ranges 12 0 segments' = ranges 12 0 segments
  agree : ∀ range ∈ Segments.ranges 12 0 segments, Agree range.1 range.2 s.mem s'.mem

theorem Same.refl (s : Heap) (segments : List Segment) : Same s s segments segments :=
  ⟨rfl, rfl, fun _ _ _ _ _ => rfl⟩

theorem Same.trans {s' s'' : Heap} {segments' segments'' : List Segment}
    (first : Same s s' segments segments') (second : Same s' s'' segments' segments'')
    : Same s s'' segments segments'' where
  extent := second.extent.trans first.extent
  ranges := second.ranges.trans first.ranges
  agree range member := (first.agree range member).trans
    (second.agree range (by rwa [first.ranges]))

/-- The heap has another layout of this kind. -/
structure Reshaped (narrow : Prop) (s s' : Heap) (segments segments' : List Segment) : Prop where
  base : Base s' segments'
  lowest : Lowest narrow s'.lfree segments'
  same : Same s s' segments segments'

-----------------------------------------------------------------------------------------
-- plug_holes
-----------------------------------------------------------------------------------------

theorem tag_used (prev place : Nat) (segment : Segment)
    : (tag prev place segment).used = 0 ↔ segment.used = false := by
  unfold tag
  cases segment.used <;> simp

/-- Two free blocks become one. -/
theorem absorb_spec {narrow : Prop} {size other : Nat}
    (base
      : Base s (before ++ { size, used := false } :: { size := other, used := false } :: after))
    (lowest
      : Lowest narrow s.lfree
          (before ++ { size, used := false } :: { size := other, used := false } :: after))
    : Reshaped narrow s
        (absorb (.ofNat (extent 12 before)) (.ofNat (extent 12 before + 12 + size)) s)
        (before ++ { size, used := false } :: { size := other, used := false } :: after)
        (before ++ { size := size + 12 + other, used := false } :: after) := by
  have small := base.laid.small
  have same := extent_joined 12 size other false before after
  have total := extent_middle { size, used := false } before
    ({ size := other, used := false } :: after)
  rw [extent] at total
  dsimp only at total
  obtain ⟨laid, headers⟩ := base.laid.join
  obtain ⟨sizedFront, ⟨positive, aligned⟩, sizedBack⟩ := forall_middle.mp base.sized
  obtain ⟨⟨otherPositive, otherAligned⟩, sizedRest⟩ := List.forall_mem_cons.mp sizedBack
  dsimp only at positive aligned otherPositive otherAligned
  have sized : 0 < size + 12 + other ∧ (size + 12 + other) % 4 = 0 := by omega
  refine ⟨?_, ⟨?_, fun given hole member => ?_⟩, ?_⟩
  · exact
      {
        laid := laid
        heapEnd := by rw [same]; exact base.heapEnd
        size := by rw [same]; exact base.size
        room := by rw [same]; exact base.room
        sized := forall_middle.mpr ⟨sizedFront, sized, sizedRest⟩
        usedMem := by rw [usage_joined]; exact base.usedMem
      }
  · have here := mem_holes_here 12 0 (size + 12 + other) before after
    rw [Nat.zero_add] at here
    dsimp only [absorb]
    split
    case isTrue => exact .inl (by rwa [toNat_place (by omega)])
    case isFalse apart =>
      rcases lowest.hole with hole | last
      · rcases mem_holes_joined.mp hole with still | taken
        · exact .inl still
        · rw [Nat.zero_add] at taken
          exact absurd (by rw [← taken, UInt32.ofNat_toNat]) apart
      · exact .inr (by rw [same, last])
  · have below := lowest.low given hole (mem_holes_joined.mpr (.inl member))
    have first := lowest.low given (extent 12 before)
      (by rw [← Nat.zero_add (extent 12 before)]; exact mem_holes_here ..)
    dsimp only [absorb]
    split
    case isTrue taken =>
      rw [taken, toNat_place (by omega)] at first
      omega
    case isFalse => exact below
  · exact ⟨same, ranges_joined 12 0 size other before after,
      fun range member => headers.agree member⟩

/-- The header of the block behind a segment, or the last one. -/
theorem Laid.next (laid : Laid m (before ++ segment :: after))
    : (header m (.ofNat (extent 12 before))).next
        = .ofNat (extent 12 before + 12 + segment.size)
      ∧ (∀ right ∈ after.head?,
          (header m (.ofNat (extent 12 before + 12 + segment.size))).used = 0
          ↔ right.used = false)
      ∧ (after = [] ↔ extent 12 before + 12 + segment.size
          = extent 12 (before ++ segment :: after)) := by
  obtain ⟨-, middle, later⟩ := (closed_middle _ _ _ _).mp laid.closed
  have total := extent_middle segment before after
  refine ⟨by rw [middle]; rfl, fun right first => ?_, ?_⟩
  · cases after with
    | nil => cases first
    | cons other rest =>
        obtain rfl := Option.some.inj first
        rw [((closed_cons _ _ _ _ _).mp later).1]
        exact tag_used _ _ _
  · cases after with
    | nil =>
        rw [extent] at total
        exact iff_of_true rfl (by omega)
    | cons other rest =>
        rw [extent] at total
        exact iff_of_false (List.cons_ne_nil _ _) (by omega)

/-- Behind the first part the next block is in use. -/
theorem plugForward_spec {narrow : Prop} {size : Nat}
    (base : Base s (before ++ { size, used := false } :: after))
    (lowest : Lowest narrow s.lfree (before ++ { size, used := false } :: after))
    (coalesced : Coalesced after)
    : ∃ size' after',
        Reshaped narrow s (plugForward (.ofNat (extent 12 before)) s)
          (before ++ { size, used := false } :: after)
          (before ++ { size := size', used := false } :: after')
        ∧ Coalesced after'
        ∧ ∀ right ∈ after'.head?, right.used = true := by
  have small := base.laid.small
  have total := extent_middle { size, used := false } before after
  dsimp only at total
  obtain ⟨next, used, last⟩ := base.laid.next
  have apart : UInt32.ofNat (extent 12 before) ≠ .ofNat (extent 12 before + 12 + size) := by
    rw [ne_eq, place_inj (by omega) (by omega)]
    omega
  have inside : UInt32.ofNat (extent 12 before + 12 + size) ≠ s.heapEnd ↔ after ≠ [] := by
    rw [base.heapEnd, ne_eq, place_inj (by omega) (by omega)]
    exact not_congr last.symm
  simp only [plugForward, next, ne_eq, apart, not_false_eq_true, true_and]
  split
  case isTrue both =>
    obtain ⟨free, within⟩ := both
    obtain ⟨⟨other, otherUsed⟩, rest, rfl⟩ := List.exists_cons_of_ne_nil (inside.mp within)
    obtain rfl : otherUsed = false := (used _ rfl).mp free
    obtain ⟨later, neighbour⟩ := coalesced_cons.mp coalesced
    exact ⟨size + 12 + other, rest, absorb_spec base lowest, later, neighbour rfl⟩
  case isFalse none =>
    refine ⟨size, after, ⟨base, lowest, .refl s _⟩, coalesced, fun right first => ?_⟩
    have within : after ≠ [] := fun empty => by
      rw [empty] at first
      cases first
    cases unused : right.used with
    | true => rfl
    | false => exact absurd ⟨(used right first).mpr unused, inside.mpr within⟩ none

/-- The place of the last segment of some. -/
theorem lastPlace_concat (prev place : Nat) (before : List Segment) (segment : Segment)
    : lastPlace prev place (before ++ [segment]) = place + extent 12 before := by
  induction before generalizing prev place with
  | nil => rfl
  | cons first rest ih =>
      rw [List.cons_append, lastPlace, ih, extent]
      omega

/-- Behind the second part no two free blocks are neighbours. -/
theorem plugBackward_spec {narrow : Prop} {size : Nat}
    (base : Base s (before ++ { size, used := false } :: after))
    (lowest : Lowest narrow s.lfree (before ++ { size, used := false } :: after))
    (front : Coalesced before) (coalesced : Coalesced after)
    (next : ∀ right ∈ after.head?, right.used = true)
    : ∃ segments,
        Reshaped narrow s (plugBackward (.ofNat (extent 12 before)) s)
          (before ++ { size, used := false } :: after) segments
        ∧ Coalesced segments := by
  have small := base.laid.small
  have total := extent_middle { size, used := false } before after
  dsimp only at total
  obtain ⟨-, middle, -⟩ := (closed_middle _ _ _ _).mp base.laid.closed
  have prev : (header s.mem (.ofNat (extent 12 before))).prev
      = .ofNat (lastPlace 0 0 before) := by
    rw [middle]
    rfl
  simp only [plugBackward, prev]
  rcases List.eq_nil_or_concat' before with rfl | ⟨first, ⟨other, otherUsed⟩, rfl⟩
  · rw [if_neg fun both => both.1 rfl]
    have first : ∀ last ∈ ([] : List Segment).getLast?, last.used = true := by simp
    exact ⟨_, ⟨base, lowest, .refl s _⟩,
      coalesced_middle.mpr ⟨front, coalesced, fun _ => ⟨first, next⟩⟩⟩
  · have shape (rest : List Segment)
        : first ++ [{ size := other, used := otherUsed }] ++ rest
          = first ++ { size := other, used := otherUsed } :: rest := List.append_assoc _ _ _
    have here : extent 12 (first ++ [{ size := other, used := otherUsed }])
        = extent 12 first + 12 + other := by
      rw [extent_middle, extent]
      dsimp only
      omega
    have apart : UInt32.ofNat (extent 12 first) ≠ .ofNat (extent 12 first + 12 + other) := by
      rw [ne_eq, place_inj (by omega) (by omega)]
      omega
    rw [shape] at base lowest
    obtain ⟨-, previous, -⟩ := (closed_middle _ _ _ _).mp base.laid.closed
    obtain ⟨later, -, neighbours⟩ := coalesced_middle.mp front
    simp only [lastPlace_concat, Nat.zero_add, here, ne_eq, apart, not_false_eq_true, true_and,
      previous, tag_used]
    cases otherUsed with
    | false =>
        rw [if_pos rfl, shape]
        exact ⟨_, absorb_spec base lowest,
          coalesced_middle.mpr ⟨later, coalesced, fun _ => ⟨(neighbours rfl).1, next⟩⟩⟩
    | true =>
        have tail : Coalesced ({ size, used := false } :: after) :=
          coalesced_cons.mpr ⟨coalesced, fun _ => next⟩
        rw [if_neg Bool.noConfusion, shape]
        exact ⟨_, ⟨base, lowest, .refl s _⟩,
          coalesced_middle.mpr ⟨later, tail, fun unused => Bool.noConfusion unused⟩⟩

/-- plug_holes leaves no two free blocks as neighbours, around the block that it is called for.
-/
theorem plugHoles_spec {narrow : Prop} {size : Nat}
    (base : Base s (before ++ { size, used := false } :: after))
    (lowest : Lowest narrow s.lfree (before ++ { size, used := false } :: after))
    (front : Coalesced before) (coalesced : Coalesced after)
    : ∃ segments,
        Inv narrow (plugHoles (.ofNat (extent 12 before)) s) segments
        ∧ Same s (plugHoles (.ofNat (extent 12 before)) s)
            (before ++ { size, used := false } :: after) segments := by
  obtain ⟨size', after', forward, later, next⟩ := plugForward_spec base lowest coalesced
  obtain ⟨segments, backward, whole⟩ :=
    plugBackward_spec forward.base forward.lowest front later next
  exact ⟨segments, ⟨backward.base, backward.lowest, whole⟩, forward.same.trans backward.same⟩

-----------------------------------------------------------------------------------------
-- A block by its pointer
-----------------------------------------------------------------------------------------

theorem before_eq (place : Nat) : UInt32.ofNat (place + 12) - SIZEOF_STRUCT_MEM = .ofNat place := by
  rw [UInt32.ofNat_add]
  exact UInt32.add_sub_cancel _ _

/-- The space of a block, as it is read off its header. -/
theorem space_eq (place size : Nat)
    : UInt32.ofNat (place + 12 + size) - (.ofNat place + SIZEOF_STRUCT_MEM) = .ofNat size := by
  rw [UInt32.ofNat_add, UInt32.ofNat_add, UInt32.add_comm _ (.ofNat size)]
  exact UInt32.add_sub_cancel _ _

/-- The length of a block, as it is read off its header. -/
theorem block_eq (place size : Nat)
    : UInt32.ofNat (place + 12 + size) - .ofNat place = .ofNat (12 + size) := by
  rw [Nat.add_assoc, UInt32.ofNat_add place, UInt32.add_comm]
  exact UInt32.add_sub_cancel _ _

/-- The pointer to a block in use is inside the heap. -/
theorem Base.inside {size : Nat} (base : Base s (before ++ { size, used := true } :: after))
    : ¬s.heapEnd ≤ .ofNat (extent 12 before + 12) := by
  have small := base.laid.small
  have whole := extent_middle { size, used := true } before after
  have positive := (base.sized { size, used := true } (by simp)).1
  dsimp only at whole positive
  rw [base.heapEnd, place_le_iff (by omega) (by omega)]
  omega

-----------------------------------------------------------------------------------------
-- rt_free
-----------------------------------------------------------------------------------------

/-- A range is no longer in use; the others are, and keep their bytes. -/
structure Released (range : Nat × Nat) (s s' : Heap) (segments segments' : List Segment) : Prop
    where
  extent : extent 12 segments' = extent 12 segments
  ranges : ∀ other,
    other ∈ ranges 12 0 segments' ↔ other ∈ ranges 12 0 segments ∧ other ≠ range
  agree : ∀ other ∈ Segments.ranges 12 0 segments,
    other ≠ range → Agree other.1 other.2 s.mem s'.mem

/-- The ranges in use without one. -/
theorem mem_ranges_free {size : Nat} {other : Nat × Nat}
    : other ∈ ranges 12 0 (before ++ { size, used := false } :: after)
      ↔ other ∈ ranges 12 0 (before ++ { size, used := true } :: after)
        ∧ other ≠ (extent 12 before + 12, size) := by
  rw [mem_ranges_middle, mem_ranges_middle]
  simp only [Bool.false_eq_true, false_and, false_or, true_and, Nat.zero_add]
  constructor
  · rintro (first | later)
    · have inside := range_inside first
      refine ⟨.inl first, ?_⟩
      rintro rfl
      dsimp only at inside
      omega
    · have inside := range_inside later
      refine ⟨.inr (.inr later), ?_⟩
      rintro rfl
      dsimp only at inside
      omega
  · rintro ⟨first | here | later, apart⟩
    · exact .inl first
    · exact absurd here apart
    · exact .inr later

/-- rt_free of a range in use releases it. -/
theorem rtFree_spec {narrow : Prop} (inv : Inv narrow s segments) {range : Nat × Nat}
    (member : range ∈ ranges 12 0 segments)
    : ∃ segments',
        Inv narrow (rtFree (some (.ofNat range.1)) s) segments'
        ∧ Released range s (rtFree (some (.ofNat range.1)) s) segments segments' := by
  obtain ⟨place, size⟩ := range
  obtain ⟨before, after, shape, placed⟩ := exists_of_mem_ranges member
  rw [Nat.zero_add] at placed
  dsimp only at shape placed
  subst shape placed
  obtain ⟨base, ⟨hole, low⟩, coalesced⟩ := inv
  have small := base.laid.small
  have total := extent_middle { size, used := true } before after
  have same : extent 12 (before ++ { size, used := false } :: after)
      = extent 12 (before ++ { size, used := true } :: after) := by
    rw [extent_middle, extent_middle]
  obtain ⟨sizedFront, sized, sizedBack⟩ := forall_middle.mp base.sized
  have positive := sized.1
  dsimp only at total positive
  obtain ⟨laid, headers⟩ := base.laid.mark false
  obtain ⟨front, back, -⟩ := coalesced_middle.mp coalesced
  simp only [rtFree, if_neg base.inside, before_eq, base.laid.next.1, block_eq]
  generalize freed : Heap.mk (modify s.mem _ _) _ _ _ _ _ = s'
  have marking : s'.mem = modify s.mem (.ofNat (extent 12 before)) (marked false) := by
    rw [← freed]
    rfl
  have newBase : Base s' (before ++ { size, used := false } :: after) :=
    {
      laid := by rw [marking]; exact laid
      heapEnd := by rw [← freed, same]; exact base.heapEnd
      size := by rw [← freed, same]; exact base.size
      room := by rw [same]; exact base.room
      sized := forall_middle.mpr ⟨sizedFront, sized, sizedBack⟩
      usedMem := by
        rw [← freed, base.usedMem, usage_append, usage_append]
        dsimp only [usage]
        rw [if_pos rfl, if_neg Bool.noConfusion, ← UInt32.ofNat_sub (by omega)]
        congr 1
        omega
    }
  have holesBefore {hole : Nat} : hole ∈ holes 12 0 (before ++ { size, used := false } :: after)
      ↔ hole = extent 12 before
        ∨ hole ∈ holes 12 0 (before ++ { size, used := true } :: after) := by
    rw [mem_holes_middle, mem_holes_middle]
    simp only [true_and, Nat.zero_add, Bool.true_eq_false, false_and, false_or]
    tauto
  have lower : s'.lfree = if UInt32.ofNat (extent 12 before) < s.lfree
      then .ofNat (extent 12 before) else s.lfree := by rw [← freed]
  have newLowest : Lowest narrow s'.lfree (before ++ { size, used := false } :: after) := by
    rw [lower]
    split
    case isTrue below =>
      rw [UInt32.lt_iff_toNat_lt, toNat_place (by omega)] at below
      refine ⟨.inl ?_, fun given other found => ?_⟩
      · rw [toNat_place (by omega)]
        exact holesBefore.mpr (.inl rfl)
      · rw [toNat_place (by omega)]
        rcases holesBefore.mp found with rfl | old
        · exact Nat.le_refl _
        · exact Nat.le_trans (Nat.le_of_lt below) (low given other old)
    case isFalse notBelow =>
      rw [UInt32.lt_iff_toNat_lt, toNat_place (by omega)] at notBelow
      refine ⟨?_, fun given other found => ?_⟩
      · rcases hole with inHole | last
        · exact .inl (holesBefore.mpr (.inr inHole))
        · exact .inr (by rw [same, last])
      · rcases holesBefore.mp found with rfl | old
        · exact Nat.le_of_not_lt notBelow
        · exact low given other old
  obtain ⟨segments', whole, kept⟩ := plugHoles_spec newBase newLowest front back
  refine ⟨segments', whole, kept.extent.trans same, fun other => ?_, fun other found apart => ?_⟩
  · rw [kept.ranges]
    exact mem_ranges_free
  · have agree := headers.agree found
    rw [← marking] at agree
    exact agree.trans (kept.agree other (mem_ranges_free.mpr ⟨found, apart⟩))

-----------------------------------------------------------------------------------------
-- rt_malloc
-----------------------------------------------------------------------------------------

/-- The space that a block needs to be split. -/
theorem split_eq (size : Nat)
    : UInt32.ofNat size + SIZEOF_STRUCT_MEM + MIN_SIZE_ALIGNED = .ofNat (size + 24) := by
  rw [UInt32.ofNat_add, UInt32.add_assoc]
  rfl

/-- The loop of rt_malloc finds a free block that is large enough and begins below the limit, when
there is one in the region; by induction on the region.
-/
theorem findBlock_spec (closed : Closed m prev place segments)
    (small : place + extent 12 segments + 12 < 2 ^ 32) (limit size : Nat)
    (behind : limit ≤ place + extent 12 segments) (sizeSmall : size < 2 ^ 32) {passes : Nat}
    (enough : segments.length < passes)
    : (∃ before free after,
        segments = before ++ { size := free, used := false } :: after
        ∧ size ≤ free
        ∧ place + extent 12 before < limit
        ∧ findBlock m (.ofNat limit) (.ofNat size) passes (.ofNat place)
            = some (some (.ofNat (place + extent 12 before))))
      ∨ (∀ before free after,
            segments = before ++ { size := free, used := false } :: after
            → size ≤ free
            → limit ≤ place + extent 12 before)
        ∧ findBlock m (.ofNat limit) (.ofNat size) passes (.ofNat place) = some none := by
  induction segments generalizing prev place passes with
  | nil =>
      obtain ⟨passes, rfl⟩ := Nat.exists_eq_succ_of_ne_zero (Nat.ne_of_gt enough)
      rw [extent] at behind small
      have past : ¬UInt32.ofNat place < .ofNat limit := by
        rw [place_lt_iff (by omega) (by omega)]
        omega
      refine .inr ⟨fun before free after shape => ?_, if_neg past⟩
      cases before <;> cases shape
  | cons segment rest ih =>
      obtain ⟨passes, rfl⟩ := Nat.exists_eq_succ_of_ne_zero (Nat.ne_of_gt
        (Nat.lt_of_le_of_lt (Nat.zero_le _) enough))
      rw [extent] at behind small
      obtain ⟨first, later⟩ := (closed_cons _ _ _ _ _).mp closed
      have within := place_lt_iff (a := place) (b := limit) (by omega) (by omega)
      have fits := place_le_iff (a := size) (b := segment.size) (by omega) (by omega)
      have free : (header m (.ofNat place)).used = 0 ↔ segment.used = false := by
        rw [first]
        exact tag_used _ _ _
      have next : (header m (.ofNat place)).next = .ofNat (place + 12 + segment.size) := by
        rw [first]
        rfl
      simp only [findBlock, within, space_eq, fits, free, next]
      by_cases below : place < limit
      · rw [if_pos below]
        by_cases found : segment.used = false ∧ size ≤ segment.size
        · rw [if_pos found]
          refine .inl ⟨[], segment.size, rest, ?_, found.2, below, rfl⟩
          rw [List.nil_append, ← found.1]
        · rw [if_neg found]
          have length : rest.length < passes := Nat.lt_of_succ_lt_succ enough
          rcases ih later (by omega) (by omega) length with
            ⟨before, free, after, rfl, large, low, ran⟩ | ⟨none, ran⟩
          · refine .inl ⟨segment :: before, free, after, rfl, large, ?_, ?_⟩
            · rw [extent]
              omega
            · rw [ran, extent]
              congr 3
              omega
          · refine .inr ⟨fun before free after shape large => ?_, ran⟩
            cases before with
            | nil =>
                obtain ⟨rfl, rfl⟩ := List.cons.inj shape
                exact absurd ⟨rfl, large⟩ found
            | cons other before =>
                obtain ⟨rfl, rfl⟩ := List.cons.inj shape
                have past := none before free after rfl large
                rw [extent]
                omega
      · rw [if_neg below]
        exact .inr ⟨fun before _ _ _ _ => by omega, rfl⟩

/-- The loop over lfree stops at the first free block of the region, or at its end. -/
theorem nextFree_spec (closed : Closed m prev place segments)
    (small : place + extent 12 segments + 12 < 2 ^ 32) {passes : Nat}
    (enough : segments.length < passes)
    : ∃ lfree,
        nextFree m (.ofNat (place + extent 12 segments)) passes (.ofNat place)
          = some (.ofNat lfree)
        ∧ (lfree ∈ holes 12 place segments ∨ lfree = place + extent 12 segments)
        ∧ lfree < 2 ^ 32
        ∧ ∀ hole ∈ holes 12 place segments, lfree ≤ hole := by
  induction segments generalizing prev place passes with
  | nil =>
      obtain ⟨passes, rfl⟩ := Nat.exists_eq_succ_of_ne_zero (Nat.ne_of_gt enough)
      rw [extent, Nat.add_zero] at small ⊢
      have none : ∀ hole ∈ holes 12 place [], place ≤ hole := by simp [holes]
      exact ⟨place, if_neg fun both => both.2 rfl, .inr rfl, by omega, none⟩
  | cons segment rest ih =>
      obtain ⟨passes, rfl⟩ := Nat.exists_eq_succ_of_ne_zero (Nat.ne_of_gt
        (Nat.lt_of_le_of_lt (Nat.zero_le _) enough))
      obtain ⟨first, later⟩ := (closed_cons _ _ _ _ _).mp closed
      have last : place + extent 12 (segment :: rest)
          = place + 12 + segment.size + extent 12 rest := by
        rw [extent]
        omega
      rw [last] at small ⊢
      have apart : UInt32.ofNat place
          ≠ .ofNat (place + 12 + segment.size + extent 12 rest) := by
        rw [ne_eq, place_inj (by omega) (by omega)]
        omega
      have free : (header m (.ofNat place)).used = 0 ↔ segment.used = false := by
        rw [first]
        exact tag_used _ _ _
      have next : (header m (.ofNat place)).next = .ofNat (place + 12 + segment.size) := by
        rw [first]
        rfl
      simp only [nextFree, ne_eq, free, apart, not_false_eq_true, and_true, next,
        Bool.not_eq_false]
      split
      case isTrue used =>
        have length : rest.length < passes := Nat.lt_of_succ_lt_succ enough
        obtain ⟨lfree, ran, hole, low, least⟩ := ih later (by omega) length
        rw [holes, if_pos used]
        exact ⟨lfree, ran, hole, low, least⟩
      case isFalse unused =>
        rw [holes, if_neg unused]
        refine ⟨place, rfl, .inl (.head _), by omega, fun hole member => ?_⟩
        rcases List.mem_cons.mp member with rfl | member
        · exact Nat.le_refl _
        · obtain ⟨before, -, -, -, placed⟩ := exists_of_mem_holes member
          omega

/-- A block of a size is taken at a place: the ranges in use are one more, and the holes change at
the place and behind it only.
-/
structure Taken (place size : Nat) (s s' : Heap) (segments segments' : List Segment) : Prop where
  base : Base s' segments'
  coalesced : Coalesced segments'
  extent : extent 12 segments' = extent 12 segments
  ranges : ∀ range,
    range ∈ ranges 12 0 segments' ↔ range ∈ ranges 12 0 segments ∨ range = (place + 12, size)
  agree : ∀ range ∈ Segments.ranges 12 0 segments, Agree range.1 range.2 s.mem s'.mem
  left : ∀ hole ∈ holes 12 0 segments, hole ≠ place → hole ∈ holes 12 0 segments'
  new : ∀ hole ∈ holes 12 0 segments', hole ∈ holes 12 0 segments ∨ place < hole
  lfree : s'.lfree = s.lfree

theorem Base.last (base : Base s segments)
    : s.memSizeAligned + SIZEOF_STRUCT_MEM = .ofNat (extent 12 segments) := by
  have room := base.room
  have whole : extent 12 segments = extent 12 segments - 12 + 12 := by omega
  rw [base.size, whole, UInt32.ofNat_add, Nat.add_sub_cancel]
  rfl

/-- A whole free block is taken. -/
theorem takeBlock_whole {size free : Nat}
    (base : Base s (before ++ { size := free, used := false } :: after))
    (coalesced : Coalesced (before ++ { size := free, used := false } :: after))
    (large : size ≤ free) (noRest : free < size + 24)
    : Taken (extent 12 before) free s (takeBlock (.ofNat (extent 12 before)) (.ofNat size) s)
        (before ++ { size := free, used := false } :: after)
        (before ++ { size := free, used := true } :: after) := by
  have small := base.laid.small
  have total := extent_middle { size := free, used := false } before after
  dsimp only at total
  have same : extent 12 (before ++ { size := free, used := true } :: after)
      = extent 12 (before ++ { size := free, used := false } :: after) := by
    rw [extent_middle, extent_middle]
  have tooSmall : ¬UInt32.ofNat (size + 24) ≤ .ofNat free := by
    rw [place_le_iff (by omega) (by omega)]
    omega
  obtain ⟨sizedFront, sized, sizedBack⟩ := forall_middle.mp base.sized
  obtain ⟨laid, headers⟩ := base.laid.mark true
  obtain ⟨front, back, -⟩ := coalesced_middle.mp coalesced
  simp only [takeBlock, base.laid.next.1, space_eq, split_eq, if_neg tooSmall, block_eq]
  exact
    {
      base :=
        {
          laid := laid
          heapEnd := by rw [same]; exact base.heapEnd
          size := by rw [same]; exact base.size
          room := by rw [same]; exact base.room
          sized := forall_middle.mpr ⟨sizedFront, sized, sizedBack⟩
          usedMem := by
            dsimp only [Heap.counted]
            rw [base.usedMem, usage_append, usage_append]
            dsimp only [usage]
            rw [if_pos rfl, if_neg Bool.noConfusion, ← UInt32.ofNat_add]
            congr 1
            omega
        }
      coalesced := coalesced_middle.mpr ⟨front, back, fun unused => Bool.noConfusion unused⟩
      extent := same
      ranges := fun range => by
        rw [mem_ranges_middle, mem_ranges_middle]
        simp only [true_and, Bool.false_eq_true, false_and, false_or, Nat.zero_add]
        tauto
      agree := fun range member => headers.agree member
      left := fun hole member apart => by
        rw [mem_holes_middle] at member ⊢
        rcases member with first | ⟨-, here⟩ | later
        · exact .inl first
        · rw [Nat.zero_add] at here
          exact absurd here apart
        · exact .inr (.inr later)
      new := fun hole member => by
        rw [mem_holes_middle] at member ⊢
        rcases member with first | ⟨used, -⟩ | later
        · exact .inl (.inl first)
        · cases used
        · exact .inl (.inr (.inr later))
      lfree := rfl
    }

/-- A part of a free block is taken, and the rest is another one. -/
theorem takeBlock_split {size free : Nat}
    (base : Base s (before ++ { size := free, used := false } :: after))
    (coalesced : Coalesced (before ++ { size := free, used := false } :: after))
    (positive : 0 < size) (aligned : size % 4 = 0) (rest : size + 24 ≤ free)
    : Taken (extent 12 before) size s (takeBlock (.ofNat (extent 12 before)) (.ofNat size) s)
        (before ++ { size := free, used := false } :: after)
        (before ++ { size, used := true } :: { size := free - size - 12, used := false }
          :: after) := by
  have small := base.laid.small
  have total := extent_middle { size := free, used := false } before after
  dsimp only at total
  have whole : size + 12 + (free - size - 12) = free := by omega
  have next : extent 12 before + 12 + size + 12 + (free - size - 12)
      = extent 12 before + 12 + free := by omega
  have same := extent_joined 12 size (free - size - 12) true before after
  have sameUnused := extent_joined 12 size (free - size - 12) false before after
  have sameRanges := ranges_joined 12 0 size (free - size - 12) before after
  rw [whole] at same sameUnused sameRanges
  have enough : UInt32.ofNat (size + 24) ≤ .ofNat free := by
    rw [place_le_iff (by omega) (by omega)]
    omega
  obtain ⟨sizedFront, ⟨-, sized⟩, sizedBack⟩ := forall_middle.mp base.sized
  have sizedRest : 0 < free - size - 12 ∧ (free - size - 12) % 4 = 0 := by
    dsimp only at sized
    omega
  obtain ⟨front, back, neighbours⟩ := coalesced_middle.mp coalesced
  obtain ⟨split, splitHeaders⟩ := base.laid.split size (by dsimp only; omega)
  obtain ⟨laid, headers⟩ := split.mark true
  have ends : extent 12 (before ++ { size, used := true }
      :: { size := free - size - 12, used := false } :: after)
      = extent 12 (before ++ { size := free, used := false } :: after) := by
    rw [sameUnused, extent_middle, extent_middle]
  simp only [takeBlock, base.laid.next.1, space_eq, split_eq, if_pos enough, base.last]
  exact
    {
      base :=
        {
          laid := laid
          heapEnd := by rw [ends]; exact base.heapEnd
          size := by rw [ends]; exact base.size
          room := by rw [ends]; exact base.room
          sized := forall_middle.mpr ⟨sizedFront, ⟨positive, aligned⟩,
            List.forall_mem_cons.mpr ⟨sizedRest, sizedBack⟩⟩
          usedMem := by
            dsimp only [Heap.counted]
            rw [base.usedMem, usage_append, usage_append]
            dsimp only [usage]
            rw [if_pos rfl, if_neg Bool.noConfusion, if_neg Bool.noConfusion,
              show UInt32.ofNat size + SIZEOF_STRUCT_MEM = .ofNat (size + 12) from
                (UInt32.ofNat_add size 12).symm, ← UInt32.ofNat_add]
            congr 1
            omega
        }
      coalesced := by
        have tail : Coalesced ({ size := free - size - 12, used := false } :: after) :=
          coalesced_cons.mpr ⟨back, fun _ => (neighbours rfl).2⟩
        exact coalesced_middle.mpr ⟨front, tail, fun unused => Bool.noConfusion unused⟩
      extent := ends
      ranges := fun range => by
        rw [mem_ranges_middle, mem_ranges_middle, ranges_cons]
        simp only [true_and, Bool.false_eq_true, false_and, false_or, Nat.zero_add, if_false,
          List.nil_append, next]
        tauto
      agree := fun range member => by
        rw [sameRanges] at member
        exact (splitHeaders.agree member).trans (headers.agree member)
      left := fun hole member apart => by
        rw [mem_holes_middle] at member ⊢
        rw [mem_holes_cons, Nat.zero_add, next]
        rcases member with first | ⟨-, here⟩ | later
        · exact .inl first
        · rw [Nat.zero_add] at here
          exact absurd here apart
        · rw [Nat.zero_add] at later
          exact .inr (.inr (.inr later))
      new := fun hole member => by
        rw [mem_holes_middle, mem_holes_cons] at member
        rw [mem_holes_middle]
        rw [Nat.zero_add, next] at member
        rw [Nat.zero_add]
        rcases member with first | ⟨used, -⟩ | ⟨-, here⟩ | later
        · exact .inl (.inl first)
        · cases used
        · exact .inr (by omega)
        · exact .inl (.inr (.inr later))
      lfree := rfl
    }

/-- RT_ALIGN goes up to the next multiple of 4, and wraps to 0 for the largest sizes. -/
theorem rtAlign_toNat (size : UInt32)
    : (rtAlign size).toNat = (size.toNat + 3) % 2 ^ 32 / 4 * 4 := by
  have cut := BitField.and_field (size + 4 - 1).toNat 2 30
  have bound := (size + 4 - 1).toNat_lt
  have sum : (size + 4 - 1).toNat = (size.toNat + 3) % 2 ^ 32 := by
    rw [UInt32.sub_eq_add_neg, UInt32.add_assoc, UInt32.toNat_add]
    rfl
  rw [rtAlign, UInt32.toNat_and, Nat.and_comm]
  refine Eq.trans cut ?_
  rw [Nat.mod_eq_of_lt (by omega), sum]
  rfl

/-- How many bytes a request needs. -/
def request (size : UInt32) : Nat := max 12 (rtAlign size).toNat

/-- rt_malloc has nothing for a request: it is empty, or larger than the heap, or no free block
from lfree on is large enough and begins below its limit, which leaves out the block that ends
the heap when it fits exactly.
-/
def Refused (s : Heap) (segments : List Segment) (size : UInt32) : Prop :=
  size = 0
  ∨ s.memSizeAligned < rtAlign size
  ∨ ∀ before free after,
      segments = before ++ { size := free, used := false } :: after
      → s.lfree.toNat ≤ extent 12 before
      → request size ≤ free
      → s.memSizeAligned.toNat ≤ extent 12 before + request size

/-- A range is in use that was not before; the others keep their bytes. -/
structure Granted (range : Nat × Nat) (s s' : Heap) (segments segments' : List Segment) : Prop
    where
  extent : extent 12 segments' = extent 12 segments
  ranges : ∀ other,
    other ∈ ranges 12 0 segments' ↔ other ∈ ranges 12 0 segments ∨ other = range
  agree : ∀ other ∈ Segments.ranges 12 0 segments, Agree other.1 other.2 s.mem s'.mem
  fresh : ∀ other ∈ Segments.ranges 12 0 segments, other.1 ≠ range.1

/-- A block behind lfree is taken. -/
theorem Taken.lowest {narrow : Prop} {place size : Nat} {s' : Heap} {segments' : List Segment}
    (taken : Taken place size s s' segments segments')
    (lowest : Lowest narrow s.lfree segments)
    (apart : s.lfree.toNat ≠ place) (below : s.lfree.toNat ≤ place)
    : Lowest narrow s'.lfree segments' := by
  rw [taken.lfree]
  refine ⟨?_, fun given other member => ?_⟩
  · rcases lowest.hole with member | last
    · exact .inl (taken.left _ member apart)
    · exact .inr (by rw [taken.extent, last])
  · rcases taken.new other member with old | behind
    · exact lowest.low given other old
    · omega

/-- The block of a request is taken, whole or split. -/
theorem takeBlock_spec {size free : Nat}
    (base : Base s (before ++ { size := free, used := false } :: after))
    (coalesced : Coalesced (before ++ { size := free, used := false } :: after))
    (positive : 0 < size) (aligned : size % 4 = 0) (large : size ≤ free)
    : ∃ kept tail,
        size ≤ kept
        ∧ Taken (extent 12 before) kept s
            (takeBlock (.ofNat (extent 12 before)) (.ofNat size) s)
            (before ++ { size := free, used := false } :: after)
            (before ++ { size := kept, used := true } :: tail)
        ∧ tail.length ≤ after.length + 1 := by
  rcases Nat.lt_or_ge free (size + 24) with noRest | rest
  · exact ⟨free, after, large, takeBlock_whole base coalesced large noRest, Nat.le_succ _⟩
  · exact ⟨size, _, Nat.le_refl _, takeBlock_split base coalesced positive aligned rest,
      Nat.le_refl _⟩

/-- The region from lfree on. -/
theorem Inv.fromFree {narrow : Prop} (inv : Inv narrow s segments)
    : ∃ before after,
        segments = before ++ after
        ∧ s.lfree = .ofNat (extent 12 before)
        ∧ s.lfree.toNat = extent 12 before
        ∧ Closed s.mem (lastPlace 0 0 before) (extent 12 before) after := by
  have closed := inv.base.laid.closed
  rcases inv.lowest.hole with hole | last
  · obtain ⟨before, size, after, rfl, placed⟩ := exists_of_mem_holes hole
    rw [Nat.zero_add] at placed
    refine ⟨before, _, rfl, by rw [← placed, UInt32.ofNat_toNat], placed, ?_⟩
    have behind := ((closed_append _ 0 0 before _).mp closed).2
    rwa [Nat.zero_add] at behind
  · refine ⟨segments, [], (List.append_nil _).symm, by rw [← last, UInt32.ofNat_toNat], last, ?_⟩
    rw [← List.append_nil segments] at closed
    have behind := ((closed_append _ 0 0 segments []).mp closed).2
    rwa [Nat.zero_add] at behind

theorem Base.setLfree (base : Base s segments) (lfree : UInt32)
    : Base { s with lfree } segments where
  laid := base.laid
  heapEnd := base.heapEnd
  size := base.size
  room := base.room
  sized := base.sized
  usedMem := base.usedMem

/-- Behind the block that was taken at lfree, the next free block is the lowest one. -/
theorem nextFree_lowest {narrow : Prop} {size : Nat} {s' : Heap}
    (taken : Taken (extent 12 before) size s s' segments (before ++ after))
    (lowest : Lowest narrow s.lfree segments) (here : s.lfree.toNat = extent 12 before)
    {passes : Nat} (enough : after.length < passes)
    : ∃ lfree,
        nextFree s'.mem s'.heapEnd passes (.ofNat (extent 12 before)) = some lfree
        ∧ Lowest narrow lfree (before ++ after) := by
  have small := taken.base.laid.small
  have whole := extent_append 12 before after
  have behind := ((closed_append _ 0 0 before after).mp taken.base.laid.closed).2
  rw [Nat.zero_add] at behind
  obtain ⟨lfree, ran, hole, low, least⟩ := nextFree_spec behind (by omega) enough
  rw [taken.base.heapEnd, whole]
  refine ⟨.ofNat lfree, ran, ?_, fun given other member => ?_⟩
  · rw [toNat_place low, whole, holes_append, List.mem_append, Nat.zero_add]
    exact hole.imp .inr id
  · rw [toNat_place low]
    have known := taken.new other member
    rw [holes_append, List.mem_append, Nat.zero_add] at member
    rcases member with first | later
    · obtain ⟨front, size, back, rfl, placed⟩ := exists_of_mem_holes first
      rw [extent_middle] at here known
      rcases known with old | behind
      · have lowest := lowest.low given other old
        omega
      · omega
    · exact least other later

/-- rt_malloc with the block that it has found. -/
theorem grant_spec {narrow : Prop} {size free : Nat}
    (inv : Inv narrow s (before ++ { size := free, used := false } :: after))
    (positive : 0 < size) (aligned : size % 4 = 0) (large : size ≤ free)
    (below : s.lfree.toNat ≤ extent 12 before) {passes : Nat}
    (enough : (before ++ { size := free, used := false } :: after).length + 1 < passes)
    {s' : Heap} (took : takeBlock (.ofNat (extent 12 before)) (.ofNat size) s = s')
    : ∃ lfree kept segments',
        (if UInt32.ofNat (extent 12 before) = s'.lfree then
            nextFree s'.mem s'.heapEnd passes (.ofNat (extent 12 before))
          else some s'.lfree)
          = some lfree
        ∧ Inv narrow { s' with lfree } segments'
        ∧ Granted (extent 12 before + 12, kept) s { s' with lfree }
            (before ++ { size := free, used := false } :: after) segments'
        ∧ size ≤ kept := by
  have small := inv.base.laid.small
  have total := extent_middle { size := free, used := false } before after
  obtain ⟨kept, tail, enoughKept, taken, length⟩ :=
    takeBlock_spec inv.base inv.coalesced positive aligned large
  rw [took] at taken
  have hole := mem_holes_here 12 0 free before after
  rw [Nat.zero_add] at hole
  suffices moved : ∃ lfree,
      (if UInt32.ofNat (extent 12 before) = s'.lfree then
          nextFree s'.mem s'.heapEnd passes (.ofNat (extent 12 before))
        else some s'.lfree)
        = some lfree
      ∧ Lowest narrow lfree (before ++ { size := kept, used := true } :: tail) by
    obtain ⟨lfree, next, lowest⟩ := moved
    refine ⟨lfree, kept, _, next, ⟨taken.base.setLfree lfree, lowest, taken.coalesced⟩, ?_,
      enoughKept⟩
    exact
      {
        extent := taken.extent
        ranges := taken.ranges
        agree := taken.agree
        fresh := fun other member => hole_fresh (by decide) hole member
      }
  rw [taken.lfree]
  split
  case isTrue here =>
    have lfree : s.lfree.toNat = extent 12 before := by
      rw [← here, toNat_place (by omega)]
    refine nextFree_lowest taken inv.lowest lfree ?_
    rw [List.length_append, List.length_cons] at enough
    rw [List.length_cons]
    omega
  case isFalse apart =>
    refine ⟨_, rfl, ?_⟩
    rw [← taken.lfree]
    refine taken.lowest inv.lowest (fun here => apart ?_) below
    rw [← here, UInt32.ofNat_toNat]

/-- rt_malloc refuses a request and changes nothing, or gives a range that is large enough. -/
theorem rtMalloc_spec {narrow : Prop} (inv : Inv narrow s segments) {passes : Nat}
    (enough : segments.length + 1 < passes) (size : UInt32)
    : (Refused s segments size ∧ rtMalloc passes size s = some (none, s))
      ∨ ¬Refused s segments size
        ∧ ∃ range s' segments',
            rtMalloc passes size s = some (some (.ofNat range.1), s')
            ∧ Inv narrow s' segments'
            ∧ Granted range s s' segments segments'
            ∧ request size ≤ range.2 := by
  have small := inv.base.laid.small
  have room := inv.base.room
  unfold rtMalloc
  by_cases empty : size = 0
  · exact .inl ⟨.inl empty, if_pos empty⟩
  rw [if_neg empty]
  by_cases tooLarge : s.memSizeAligned < rtAlign size
  · exact .inl ⟨.inr (.inl tooLarge), if_pos tooLarge⟩
  rw [if_neg tooLarge]
  have least : (if rtAlign size < MIN_SIZE_ALIGNED then MIN_SIZE_ALIGNED else rtAlign size)
      = .ofNat (request size) := by
    have twelve : rtAlign size < MIN_SIZE_ALIGNED ↔ (rtAlign size).toNat < 12 := Iff.rfl
    unfold request
    split
    case isTrue below => rw [Nat.max_eq_left (Nat.le_of_lt (twelve.mp below))]; rfl
    case isFalse above =>
      rw [twelve] at above
      rw [Nat.max_eq_right (Nat.le_of_not_lt above), UInt32.ofNat_toNat]
  have total : s.memSizeAligned.toNat = extent 12 segments - 12 := by
    rw [inv.base.size, toNat_place (by omega)]
  have fitting : request size ≤ extent 12 segments - 12 := by
    rw [UInt32.lt_iff_toNat_lt, total] at tooLarge
    unfold request
    omega
  have limit : s.memSizeAligned - .ofNat (request size)
      = .ofNat (extent 12 segments - 12 - request size) := by
    rw [inv.base.size, ← UInt32.ofNat_sub fitting]
  simp only [least, limit]
  obtain ⟨before, after, rfl, lfree, lfreeNat, closed⟩ := inv.fromFree
  have whole := extent_append 12 before after
  have length : after.length < passes := by
    rw [List.length_append] at enough
    omega
  have refusal : (∀ front free back,
        after = front ++ { size := free, used := false } :: back
        → request size ≤ free
        → extent 12 (before ++ after) - 12 - request size
            ≤ extent 12 before + extent 12 front)
      ↔ Refused s (before ++ after) size := by
    unfold Refused
    rw [or_iff_right empty, or_iff_right tooLarge, total]
    constructor
    · intro none before' free after' shape later large
      rw [lfreeNat] at later
      obtain ⟨front, rfl, rfl⟩ := exists_of_extent_le (Nat.zero_lt_succ 11) shape later
      have past := none front free after' rfl large
      rw [extent_append 12 before front]
      omega
    · intro none front free back shape large
      have past := none (before ++ front) free back
        (by rw [shape, List.append_assoc])
        (by rw [lfreeNat, extent_append 12 before front]; exact Nat.le_add_right _ _) large
      rw [extent_append 12 before front] at past
      omega
  have search := findBlock_spec closed (by omega)
    (extent 12 (before ++ after) - 12 - request size) (request size) (by omega) (by omega) length
  rw [← lfree] at search
  rcases search with ⟨front, free, back, rfl, large, low, found⟩ | ⟨none, found⟩
  · refine .inr ⟨fun refused => ?_, ?_⟩
    · have past := refusal.mpr refused front free back rfl large
      omega
    · rw [found]
      dsimp only
      rw [← extent_append 12 before front]
      generalize took : takeBlock _ _ s = s'
      rw [← List.append_assoc] at inv enough ⊢
      have aligned : request size % 4 = 0 := by
        have multiple := rtAlign_toNat size
        unfold request
        omega
      obtain ⟨next, kept, segments', moved, invAfter, granted, enoughKept⟩ :=
        grant_spec inv (by unfold request; omega) aligned large
          (by rw [lfreeNat, extent_append 12 before front]; exact Nat.le_add_right _ _) enough took
      rw [moved, Option.map_some]
      refine ⟨_, _, segments', ?_, invAfter, granted, enoughKept⟩
      dsimp only
      rw [UInt32.ofNat_add (extent 12 (before ++ front))]
      rfl
  · rw [found]
    exact .inl ⟨refusal.mp none, rfl⟩

end At32.Mem
