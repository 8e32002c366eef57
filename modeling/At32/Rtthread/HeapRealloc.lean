import At32.Rtthread.HeapCalls

/-! rt_realloc and rt_calloc, and writes of the callers into what they hold. -/

namespace At32.Mem

open ByteMemory Segments

variable {s : Heap} {before after segments : List Segment} {passes : Nat}

-----------------------------------------------------------------------------------------
-- Writes into a block
-----------------------------------------------------------------------------------------

theorem Inv.mono {narrow narrow' : Prop} (inv : Inv narrow s segments)
    (less : narrow' → narrow)
    : Inv narrow' s segments :=
  ⟨inv.base, ⟨inv.lowest.hole, fun given => inv.lowest.low (less given)⟩, inv.coalesced⟩

/-- Bytes that are written inside a range in use change no header. -/
theorem Inv.store {narrow : Prop} (inv : Inv narrow s segments) {range : Nat × Nat}
    (member : range ∈ ranges 12 0 segments) {place : Nat} (bytes : List UInt8)
    (low : range.1 ≤ place) (high : place + bytes.length ≤ range.1 + range.2)
    : Inv narrow { s with mem := ByteMemory.store s.mem place bytes } segments := by
  have small := inv.base.laid.small
  have bounds := range_inside member
  have outside {i : Nat} (apart : i < range.1 ∨ range.1 + range.2 ≤ i)
      : ByteMemory.store s.mem place bytes i = s.mem i := store_outside (by omega)
  obtain ⟨linked, other, last⟩ := inv.base.laid.closed
  refine
    {
      base :=
        {
          laid := ⟨⟨linked.congr (by omega) fun i header => outside ?_, other, ?_⟩, small⟩
          heapEnd := inv.base.heapEnd
          size := inv.base.size
          room := inv.base.room
          sized := inv.base.sized
          usedMem := inv.base.usedMem
        }
      lowest := inv.lowest
      coalesced := inv.coalesced
    }
  · by_contra inside
    exact range_not_header member (by omega) (by omega) header
  · rw [← last]
    exact header_keep (by omega) fun i first _ => outside (by omega)

/-- Bytes that are written into a new range leave the others. -/
theorem Granted.fill {s' : Heap} {segments' : List Segment} {range : Nat × Nat}
    (granted : Granted range s s' segments segments') (bytes : List UInt8)
    (fits : bytes.length ≤ range.2)
    : Granted range s { s' with mem := ByteMemory.store s'.mem range.1 bytes } segments
        segments' where
  extent := granted.extent
  ranges := granted.ranges
  fresh := granted.fresh
  agree other member := by
    have still := (granted.ranges other).mpr (.inl member)
    have here := (granted.ranges range).mpr (.inr rfl)
    have away : other ≠ range := fun same => granted.fresh other member (congrArg Prod.fst same)
    have apart := ranges_apart still here away
    exact (granted.agree other member).trans (agree_store (by omega))

-----------------------------------------------------------------------------------------
-- rt_realloc
-----------------------------------------------------------------------------------------

/-- A range in use is replaced by another one, which has the first bytes of it, as many as asked
for.
-/
structure Moved (old new : Nat × Nat) (asked : Nat) (s s' : Heap)
    (segments segments' : List Segment) : Prop where
  extent : extent 12 segments' = extent 12 segments
  ranges : ∀ other,
    other ∈ ranges 12 0 segments' ↔ (other ∈ ranges 12 0 segments ∧ other ≠ old) ∨ other = new
  agree : ∀ other ∈ Segments.ranges 12 0 segments,
    other ≠ old → Agree other.1 other.2 s.mem s'.mem
  bytes : ∀ k < old.2, k < asked → s'.mem (new.1 + k) = s.mem (old.1 + k)
  large : asked ≤ new.2

/-- The ranges in use with another length of one. -/
theorem mem_ranges_resized {size other : Nat} {range : Nat × Nat}
    : range ∈ ranges 12 0
        (before ++ { size, used := true } :: { size := other, used := false } :: after)
      ↔ (range ∈ ranges 12 0 (before ++ { size := size + 12 + other, used := true } :: after)
          ∧ range ≠ (extent 12 before + 12, size + 12 + other))
        ∨ range = (extent 12 before + 12, size) := by
  have unused : range ∈ ranges 12 0
        (before ++ { size := size + 12 + other, used := false } :: after)
      ↔ _ := mem_ranges_free
  rw [← unused, ranges_joined, mem_ranges_middle, mem_ranges_middle]
  simp only [Bool.false_eq_true, false_and, false_or, true_and, Nat.zero_add]
  tauto

/-- The part of rt_realloc that gives back what is behind a smaller length. -/
theorem shrink_spec {narrow : Prop} {newsize rest : Nat}
    (inv : Inv narrow s (before ++ { size := newsize + 12 + rest, used := true } :: after))
    (positive : 0 < newsize) (aligned : newsize % 4 = 0) (nonempty : 0 < rest)
    : ∃ s' segments',
        plugHoles (.ofNat (extent 12 before + 12 + newsize))
            { s with
              mem := splitBlock s.mem (.ofNat (extent 12 before)) (.ofNat newsize)
                (s.memSizeAligned + SIZEOF_STRUCT_MEM)
              usedMem := s.usedMem - .ofNat (12 + rest) }
          = s'
        ∧ Inv False s' segments'
        ∧ Moved (extent 12 before + 12, newsize + 12 + rest) (extent 12 before + 12, newsize)
            newsize s s'
            (before ++ { size := newsize + 12 + rest, used := true } :: after) segments' := by
  have base := inv.base
  have small := base.laid.small
  have total := extent_middle { size := newsize + 12 + rest, used := true } before after
  dsimp only at total
  obtain ⟨front, back, -⟩ := coalesced_middle.mp inv.coalesced
  obtain ⟨laid, headers⟩ := base.laid.split newsize (by dsimp only; omega)
  have left : newsize + 12 + rest - newsize - 12 = rest := by omega
  dsimp only at laid headers
  rw [left] at laid headers
  have same := extent_joined 12 newsize rest true before after
  obtain ⟨sizedFront, ⟨-, sized⟩, sizedBack⟩ := forall_middle.mp base.sized
  have sizedRest : 0 < rest ∧ rest % 4 = 0 := by
    dsimp only at sized
    omega
  rw [base.last]
  generalize cut : Heap.mk (splitBlock _ _ _ _) _ _ _ _ _ = s'
  have memory : s'.mem = splitBlock s.mem (.ofNat (extent 12 before)) (.ofNat newsize)
      (.ofNat (extent 12 (before ++ { size := newsize + 12 + rest, used := true } :: after))) := by
    rw [← cut]
  rw [← memory] at laid headers
  have shape : before ++ { size := newsize, used := true } :: { size := rest, used := false }
        :: after
      = (before ++ [{ size := newsize, used := true }])
        ++ { size := rest, used := false } :: after := by
    rw [List.append_assoc, List.singleton_append]
  have newBase : Base s' (before ++ { size := newsize, used := true }
      :: { size := rest, used := false } :: after) :=
    {
      laid := laid
      heapEnd := by rw [← cut, ← same]; exact base.heapEnd
      size := by rw [← cut, ← same]; exact base.size
      room := by rw [← same]; exact base.room
      sized := forall_middle.mpr ⟨sizedFront, ⟨positive, aligned⟩,
        List.forall_mem_cons.mpr ⟨sizedRest, sizedBack⟩⟩
      usedMem := by
        rw [← cut, base.usedMem, usage_append, usage_append]
        dsimp only [usage]
        rw [if_pos rfl, if_pos rfl, if_neg Bool.noConfusion, ← UInt32.ofNat_sub (by omega)]
        congr 1
        omega
    }
  have newLowest : Lowest False s'.lfree (before ++ { size := newsize, used := true }
      :: { size := rest, used := false } :: after) := by
    refine ⟨?_, False.elim⟩
    rw [← cut, ← same]
    refine inv.lowest.hole.imp_left fun hole => ?_
    rw [mem_holes_middle] at hole ⊢
    rw [mem_holes_cons]
    have next : 0 + extent 12 before + 12 + newsize + 12 + rest
        = 0 + extent 12 before + 12 + (newsize + 12 + rest) := by omega
    rw [next]
    rcases hole with first | ⟨used, -⟩ | later
    · exact .inl first
    · cases used
    · exact .inr (.inr (.inr later))
  have here : extent 12 (before ++ [{ size := newsize, used := true }])
      = extent 12 before + 12 + newsize := by
    rw [extent_middle, extent]
    dsimp only
    omega
  have first : Coalesced (before ++ [{ size := newsize, used := true }]) :=
    coalesced_middle.mpr ⟨front, .nil, fun unused => Bool.noConfusion unused⟩
  have agree {range : Nat × Nat}
      (member : range ∈ ranges 12 0 (before ++ { size := newsize, used := true }
        :: { size := rest, used := false } :: after))
      : Agree range.1 range.2 s.mem s'.mem := headers.agree member
  rw [shape] at newBase newLowest
  obtain ⟨segments', whole, kept⟩ := plugHoles_spec newBase newLowest first back
  rw [here] at whole kept
  rw [← shape] at kept
  refine ⟨_, segments', rfl, whole, ?_⟩
  exact
    {
      extent := by rw [kept.extent, same]
      ranges := fun other => by rw [kept.ranges, mem_ranges_resized]
      agree := fun other found apart => by
        have member := mem_ranges_resized.mpr (.inl ⟨found, apart⟩)
        exact (agree member).trans (kept.agree other member)
      bytes := fun k _ inside => by
        have member : (extent 12 before + 12, newsize) ∈ ranges 12 0
            (before ++ { size := newsize, used := true } :: { size := rest, used := false }
              :: after) := mem_ranges_resized.mpr (.inr rfl)
        have both := (agree member).trans (kept.agree _ member)
        exact both _ (Nat.le_add_right _ _) (Nat.add_lt_add_left inside _)
      large := Nat.le_refl _
    }

/-- RT_ALIGN leaves what it has made. -/
theorem rtAlign_rtAlign (size : UInt32) : rtAlign (rtAlign size) = rtAlign size := by
  have once := rtAlign_toNat size
  have twice := rtAlign_toNat (rtAlign size)
  have bound := (rtAlign size).toNat_lt
  rw [← UInt32.toNat_inj]
  omega

/-- A range that stays is replaced by itself. -/
theorem Moved.refl {old : Nat × Nat} (member : old ∈ Segments.ranges 12 0 segments)
    : Moved old old old.2 s s segments segments where
  extent := rfl
  ranges other := by
    constructor
    · intro found
      by_cases here : other = old
      · exact .inr here
      · exact .inl ⟨found, here⟩
    · rintro (⟨found, -⟩ | rfl)
      · exact found
      · exact member
  agree _ _ _ _ _ _ := rfl
  bytes _ _ _ := rfl
  large := Nat.le_refl _

/-- The part of rt_realloc that copies a block into a new one. -/
theorem regrow_spec {narrow : Prop} {s' : Heap} {segments' : List Segment} {old new : Nat × Nat}
    {asked : Nat} (inv : Inv narrow s' segments') (granted : Granted new s s' segments segments')
    (member : old ∈ ranges 12 0 segments) (fits : asked ≤ new.2)
    : ∃ s'' segments'',
        rtFree (some (.ofNat old.1))
            { s' with mem := copy s'.mem new.1 old.1 (min old.2 asked) }
          = s''
        ∧ Inv narrow s'' segments''
        ∧ Moved old new asked s s'' segments segments'' := by
  have newMember : new ∈ ranges 12 0 segments' := (granted.ranges new).mpr (.inr rfl)
  have oldMember : old ∈ ranges 12 0 segments' := (granted.ranges old).mpr (.inl member)
  have differ : old ≠ new := fun same => granted.fresh old member (congrArg Prod.fst same)
  generalize loading : load s'.mem old.1 (min old.2 asked) = loaded
  have length : loaded.length = min old.2 asked := by
    rw [← loading]
    exact load_length _ _ _
  have copied := inv.store newMember loaded (Nat.le_refl _) (by omega)
  have filled := granted.fill loaded (by omega)
  obtain ⟨segments'', freed, released⟩ := rtFree_spec copied oldMember
  rw [copy, loading]
  refine ⟨_, segments'', rfl, freed, ?_⟩
  exact
    {
      extent := released.extent.trans granted.extent
      ranges := fun other => by
        rw [released.ranges, granted.ranges]
        constructor
        · rintro ⟨found | rfl, apart⟩
          · exact .inl ⟨found, apart⟩
          · exact .inr rfl
        · rintro (⟨found, apart⟩ | rfl)
          · exact ⟨.inl found, apart⟩
          · exact ⟨.inr rfl, differ.symm⟩
      agree := fun other found apart => by
        have still := (granted.ranges other).mpr (.inl found)
        exact (filled.agree other found).trans (released.agree other still apart)
      bytes := fun k inOld inNew => by
        have inside : k < loaded.length := by omega
        calc
          _ = store s'.mem new.1 loaded (new.1 + k) :=
              released.agree new newMember differ.symm _ (Nat.le_add_right _ _) (by omega)
          _ = loaded[k] := store_at _ _ inside
          _ = s'.mem (old.1 + k) := by simp [← loading, load]
          _ = s.mem (old.1 + k) :=
              granted.agree old member _ (Nat.le_add_right _ _) (by omega)
      large := fits
    }

/-- The part of rt_realloc that asks for a new block. -/
theorem grow_spec {narrow : Prop} (inv : Inv narrow s segments)
    (enough : segments.length + 1 < passes) {old : Nat × Nat}
    (member : old ∈ ranges 12 0 segments) {asked : Nat} (small : asked < 2 ^ 32)
    (aligned : rtAlign (.ofNat asked) = .ofNat asked)
    : rtMalloc passes (.ofNat asked) s = some (none, s)
      ∨ ∃ new s' s'' segments'',
          rtMalloc passes (.ofNat asked) s = some (some (.ofNat new.1), s')
          ∧ (UInt32.ofNat new.1).toNat = new.1
          ∧ rtFree (some (.ofNat old.1))
              { s' with mem := copy s'.mem new.1 old.1 (min old.2 asked) }
            = s''
          ∧ Inv narrow s'' segments''
          ∧ Moved old new asked s s'' segments segments'' := by
  rcases rtMalloc_spec inv enough (.ofNat asked) with ⟨-, ran⟩ |
    ⟨-, new, s', segments', ran, grown, granted, large⟩
  · exact .inl ran
  · have fits : asked ≤ new.2 := by
      refine Nat.le_trans ?_ large
      rw [request, aligned, toNat_place small]
      exact Nat.le_max_right _ _
    have bounds := range_inside ((granted.ranges new).mpr (.inr rfl))
    have total := grown.base.laid.small
    obtain ⟨s'', segments'', freed, whole, moved⟩ := regrow_spec grown granted member fits
    exact .inr ⟨new, s', s'', segments'', ran, toNat_place (by omega), freed, whole, moved⟩

/-- rt_realloc takes its branch that cuts a block where it is. -/
def Cuts (s : Heap) (rmem newsize : UInt32) : Prop :=
  let ptr := rmem - SIZEOF_STRUCT_MEM
  rtAlign newsize ≤ s.memSizeAligned
  ∧ rtAlign newsize ≠ 0
  ∧ rtAlign newsize + SIZEOF_STRUCT_MEM + MIN_SIZE
    < (header s.mem ptr).next - ptr - SIZEOF_STRUCT_MEM

/-- rt_realloc of a range in use returns RT_NULL and changes nothing, or gives the range back
for a request of nothing, or replaces it; lfree is still the lowest free block, unless the range
was cut where it is.
-/
theorem rtRealloc_spec {narrow : Prop} (inv : Inv narrow s segments)
    (enough : segments.length + 1 < passes) {old : Nat × Nat}
    (member : old ∈ ranges 12 0 segments) (newsize : UInt32)
    : (rtAlign newsize ≠ 0 ∧ rtRealloc passes (some (.ofNat old.1)) newsize s = some (none, s))
      ∨ (rtAlign newsize = 0
        ∧ rtRealloc passes (some (.ofNat old.1)) newsize s
          = some (none, rtFree (some (.ofNat old.1)) s))
      ∨ ∃ new s' segments',
          rtRealloc passes (some (.ofNat old.1)) newsize s = some (some (.ofNat new.1), s')
          ∧ Inv (narrow ∧ ¬Cuts s (.ofNat old.1) newsize) s' segments'
          ∧ Moved old new (rtAlign newsize).toNat s s' segments segments' := by
  have small := inv.base.laid.small
  have room := inv.base.room
  have total : s.memSizeAligned.toNat = extent 12 segments - 12 := by
    rw [inv.base.size, toNat_place (by omega)]
  have again := rtAlign_rtAlign newsize
  have multiple := rtAlign_toNat newsize
  have bound := (rtAlign newsize).toNat_lt
  have positive (some : rtAlign newsize ≠ 0) : 0 < (rtAlign newsize).toNat :=
    Nat.pos_of_ne_zero fun zero => some (UInt32.toNat_inj.mp zero)
  have word : rtAlign newsize = .ofNat (rtAlign newsize).toNat := UInt32.ofNat_toNat.symm
  unfold rtRealloc
  dsimp only
  generalize (rtAlign newsize).toNat = asked at *
  rw [word] at again positive ⊢
  by_cases tooLarge : s.memSizeAligned < .ofNat asked
  · refine .inl ⟨fun zero => ?_, if_pos tooLarge⟩
    rw [zero] at tooLarge
    exact absurd tooLarge UInt32.not_lt_zero
  rw [if_neg tooLarge]
  by_cases nothing : UInt32.ofNat asked = 0
  · exact .inr (.inl ⟨nothing, if_pos nothing⟩)
  rw [if_neg nothing]
  have low : asked ≤ extent 12 segments - 12 := by
    rw [UInt32.lt_iff_toNat_lt, total, toNat_place bound] at tooLarge
    exact Nat.le_of_not_lt tooLarge
  have grown := grow_spec inv enough member bound again
  obtain ⟨place, size⟩ := old
  obtain ⟨before, after, shape, placed⟩ := exists_of_mem_ranges member
  rw [Nat.zero_add] at placed
  dsimp only at shape placed
  subst shape placed
  have whole := extent_middle { size, used := true } before after
  dsimp only at whole
  have space : UInt32.ofNat (12 + size) - SIZEOF_STRUCT_MEM = .ofNat size := by
    rw [Nat.add_comm, before_eq]
  simp only [if_neg inv.base.inside, before_eq, inv.base.laid.next.1, block_eq, space]
  by_cases same : UInt32.ofNat size = .ofNat asked
  · rw [if_pos same]
    rw [place_inj (by omega) bound] at same
    subst same
    exact .inr (.inr ⟨(extent 12 before + 12, size), s, _, rfl, inv.mono And.left, .refl member⟩)
  rw [if_neg same]
  have fits : UInt32.ofNat asked + SIZEOF_STRUCT_MEM + MIN_SIZE < .ofNat size
      ↔ asked + 24 < size := by
    rw [show UInt32.ofNat asked + SIZEOF_STRUCT_MEM + MIN_SIZE = .ofNat (asked + 24) from
      split_eq asked, place_lt_iff (by omega) (by omega)]
  by_cases less : asked + 24 < size
  · obtain ⟨rest, rfl⟩ : ∃ rest, size = asked + 12 + rest := ⟨size - asked - 12, by omega⟩
    obtain ⟨s', segments', cut, shrunk, moved⟩ :=
      shrink_spec inv (positive nothing) (by omega) (by omega)
    have behind : UInt32.ofNat (extent 12 before) + SIZEOF_STRUCT_MEM + .ofNat asked
        = .ofNat (extent 12 before + 12 + asked) := by
      rw [UInt32.ofNat_add, UInt32.ofNat_add]
      rfl
    have given : UInt32.ofNat (asked + 12 + rest) - .ofNat asked = .ofNat (12 + rest) := by
      rw [Nat.add_assoc, UInt32.ofNat_add, UInt32.add_comm]
      exact UInt32.add_sub_cancel _ _
    refine .inr (.inr ⟨(extent 12 before + 12, asked), s', segments', ?_, ?_, moved⟩)
    · rw [if_pos (fits.mpr less), behind, given, cut]
    · refine shrunk.mono fun uncut => uncut.2 ?_
      unfold Cuts
      dsimp only
      rw [word, before_eq, inv.base.laid.next.1, block_eq, space]
      exact ⟨UInt32.not_lt.mp tooLarge, nothing, fits.mpr less⟩
  rw [if_neg (mt fits.mp less)]
  rcases grown with ran | ⟨new, s', s'', segments'', ran, newPlace, freed, inv', moved⟩
  · rw [ran]
    exact .inl ⟨nothing, rfl⟩
  · have count : (if UInt32.ofNat size < .ofNat asked then UInt32.ofNat size else .ofNat asked)
        = .ofNat (min size asked) := by
      have below := place_lt_iff (a := size) (b := asked) (by omega) bound
      split
      case isTrue less => rw [Nat.min_eq_left (Nat.le_of_lt (below.mp less))]
      case isFalse more => rw [Nat.min_eq_right (Nat.le_of_not_lt (mt below.mpr more))]
    refine .inr (.inr ⟨new, s'', segments'', ?_, inv'.mono And.left, moved⟩)
    rw [ran, count]
    dsimp only [bind, Option.bind, pure]
    rw [newPlace, toNat_place (by omega), toNat_place (by omega), freed]

end At32.Mem
