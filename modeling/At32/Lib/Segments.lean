import Mathlib.Data.List.Chain
import Mathlib.Tactic.Common

/-! A region cut into segments, each with a header of one length in front and either in use or
free: where the segments lie, where the ranges in use are, and that these keep apart.
-/

namespace Segments

structure Segment where
  size : Nat
  used : Bool
  deriving DecidableEq, Repr

/-- The length of the region, with headers of a length. -/
def extent (head : Nat) : List Segment → Nat
  | [] => 0
  | segment :: rest => head + segment.size + extent head rest

/-- The places and lengths of the ranges in use, for a region from a place on. -/
def ranges (head : Nat) (place : Nat) : List Segment → List (Nat × Nat)
  | [] => []
  | segment :: rest =>
      let later := ranges head (place + head + segment.size) rest
      if segment.used then (place + head, segment.size) :: later else later

/-- The places of the free segments. -/
def holes (head : Nat) (place : Nat) : List Segment → List Nat
  | [] => []
  | segment :: rest =>
      let later := holes head (place + head + segment.size) rest
      if segment.used then later else place :: later

/-- A byte of one of the headers. -/
def InHeader (head : Nat) (place : Nat) : List Segment → Nat → Prop
  | [], _ => False
  | segment :: rest, i =>
      (place ≤ i ∧ i < place + head) ∨ InHeader head (place + head + segment.size) rest i

/-- No two free segments are neighbours. -/
def Coalesced (segments : List Segment) : Prop :=
  segments.IsChain fun left right => left.used = true ∨ right.used = true

/-- How much of the region is in use, headers included. -/
def usage (head : Nat) : List Segment → Nat
  | [] => 0
  | segment :: rest => (if segment.used then head + segment.size else 0) + usage head rest

variable {head place : Nat} {before after segments : List Segment} {range : Nat × Nat}

theorem extent_append (head : Nat) (before after : List Segment)
    : extent head (before ++ after) = extent head before + extent head after := by
  induction before with
  | nil => exact (Nat.zero_add _).symm
  | cons segment rest ih =>
      rw [List.cons_append, extent, ih, extent]
      omega

theorem ranges_append (head place : Nat) (before after : List Segment)
    : ranges head place (before ++ after)
      = ranges head place before ++ ranges head (place + extent head before) after := by
  induction before generalizing place with
  | nil => rfl
  | cons segment rest ih =>
      have placed : place + head + segment.size + extent head rest
          = place + extent head (segment :: rest) := by
        rw [extent]
        omega
      rw [List.cons_append, ranges, ranges, ih, placed]
      split <;> rfl

theorem holes_append (head place : Nat) (before after : List Segment)
    : holes head place (before ++ after)
      = holes head place before ++ holes head (place + extent head before) after := by
  induction before generalizing place with
  | nil => rfl
  | cons segment rest ih =>
      have placed : place + head + segment.size + extent head rest
          = place + extent head (segment :: rest) := by
        rw [extent]
        omega
      rw [List.cons_append, holes, holes, ih, placed]
      split <;> rfl

theorem ranges_cons (head place : Nat) (segment : Segment) (rest : List Segment)
    : ranges head place (segment :: rest)
      = (if segment.used then [(place + head, segment.size)] else [])
        ++ ranges head (place + head + segment.size) rest := by
  rw [ranges]
  split <;> rfl

theorem mem_holes_cons {segment : Segment} {hole : Nat}
    : hole ∈ holes head place (segment :: after)
      ↔ segment.used = false ∧ hole = place
        ∨ hole ∈ holes head (place + head + segment.size) after := by
  rw [holes]
  cases segment.used <;> simp

/-- The holes around a segment. -/
theorem mem_holes_middle {segment : Segment} {hole : Nat}
    : hole ∈ holes head place (before ++ segment :: after)
      ↔ hole ∈ holes head place before
        ∨ segment.used = false ∧ hole = place + extent head before
        ∨ hole ∈ holes head (place + extent head before + head + segment.size) after := by
  rw [holes_append, List.mem_append, mem_holes_cons]

/-- The ranges around a segment. -/
theorem mem_ranges_middle {segment : Segment}
    : range ∈ ranges head place (before ++ segment :: after)
      ↔ range ∈ ranges head place before
        ∨ segment.used = true ∧ range = (place + extent head before + head, segment.size)
        ∨ range ∈ ranges head (place + extent head before + head + segment.size) after := by
  rw [ranges_append, List.mem_append, ranges_cons, List.mem_append]
  cases segment.used <;> simp

theorem inHeader_append (head place : Nat) (before after : List Segment) (i : Nat)
    : InHeader head place (before ++ after) i
      ↔ InHeader head place before i ∨ InHeader head (place + extent head before) after i := by
  induction before generalizing place with
  | nil =>
      rw [List.nil_append, extent, Nat.add_zero]
      exact (or_iff_right id).symm
  | cons segment rest ih =>
      have placed : place + head + segment.size + extent head rest
          = place + extent head (segment :: rest) := by
        rw [extent]
        omega
      rw [List.cons_append, InHeader, InHeader, ih, placed, or_assoc]

theorem usage_append (head : Nat) (before after : List Segment)
    : usage head (before ++ after) = usage head before + usage head after := by
  induction before with
  | nil => exact (Nat.zero_add _).symm
  | cons segment rest ih =>
      rw [List.cons_append, usage, ih, usage]
      omega

/-- A header lies inside the region. -/
theorem InHeader.inside {i : Nat} (byte : InHeader head place segments i)
    : place ≤ i ∧ i < place + extent head segments := by
  induction segments generalizing place with
  | nil => exact byte.elim
  | cons segment rest ih =>
      rw [extent]
      rcases byte with here | later
      · omega
      · have within := ih later
        omega

/-- A segment that is no earlier than a place of the region is behind it. -/
theorem exists_of_extent_le (positive : 0 < head) {before' after' : List Segment}
    {segment : Segment} (same : before ++ after = before' ++ segment :: after')
    (later : extent head before ≤ extent head before')
    : ∃ front, before' = before ++ front ∧ after = front ++ segment :: after' := by
  rcases List.append_eq_append_iff.mp same with ⟨front, rfl, rfl⟩ | ⟨back, rfl, shape⟩
  · exact ⟨front, rfl, rfl⟩
  · cases back with
    | nil => exact ⟨[], by rw [List.append_nil, List.append_nil], shape.symm⟩
    | cons other rest =>
        rw [extent_append, extent] at later
        omega

/-- A range in use is that of a segment. -/
theorem exists_of_mem_ranges (member : range ∈ ranges head place segments)
    : ∃ before after,
        segments = before ++ { size := range.2, used := true } :: after
        ∧ range.1 = place + extent head before + head := by
  induction segments generalizing place with
  | nil => cases member
  | cons segment rest ih =>
      have behind (found : range ∈ ranges head (place + head + segment.size) rest) :
          ∃ before after,
            segment :: rest = before ++ { size := range.2, used := true } :: after
            ∧ range.1 = place + extent head before + head := by
        obtain ⟨before, after, rfl, placed⟩ := ih found
        refine ⟨segment :: before, after, rfl, ?_⟩
        rw [placed, extent]
        omega
      rw [ranges] at member
      split at member
      case isTrue used =>
        rcases List.mem_cons.mp member with rfl | found
        · exact ⟨[], rest, by rw [List.nil_append, ← used], rfl⟩
        · exact behind found
      case isFalse => exact behind member

/-- A hole is a free segment. -/
theorem exists_of_mem_holes {hole : Nat} (member : hole ∈ holes head place segments)
    : ∃ before size after,
        segments = before ++ { size, used := false } :: after
        ∧ hole = place + extent head before := by
  induction segments generalizing place with
  | nil => cases member
  | cons segment rest ih =>
      have behind (found : hole ∈ holes head (place + head + segment.size) rest) :
          ∃ before size after,
            segment :: rest = before ++ { size, used := false } :: after
            ∧ hole = place + extent head before := by
        obtain ⟨before, size, after, rfl, placed⟩ := ih found
        refine ⟨segment :: before, size, after, rfl, ?_⟩
        rw [placed, extent]
        omega
      rw [holes] at member
      split at member
      case isTrue => exact behind member
      case isFalse free =>
        rcases List.mem_cons.mp member with rfl | found
        · have unused : segment.used = false := by simpa using free
          exact ⟨[], segment.size, rest, by rw [List.nil_append, ← unused], rfl⟩
        · exact behind found

/-- So does a range in use, behind a header. -/
theorem range_inside (member : range ∈ ranges head place segments)
    : place + head ≤ range.1 ∧ range.1 + range.2 ≤ place + extent head segments := by
  induction segments generalizing place with
  | nil => cases member
  | cons segment rest ih =>
      rw [ranges] at member
      rw [extent]
      have later (found : range ∈ ranges head (place + head + segment.size) rest) :
          place + head ≤ range.1
          ∧ range.1 + range.2 ≤ place + (head + segment.size + extent head rest) := by
        have within := ih found
        omega
      split at member
      · rcases List.mem_cons.mp member with rfl | found
        · dsimp only
          omega
        · exact later found
      · exact later member

/-- The ranges come in their order, each behind the header that follows the one before. -/
theorem ranges_sorted (head place : Nat) (segments : List Segment)
    : (ranges head place segments).Pairwise fun left right =>
        left.1 + left.2 + head ≤ right.1 := by
  induction segments generalizing place with
  | nil => exact .nil
  | cons segment rest ih =>
      rw [ranges]
      split
      · refine List.pairwise_cons.mpr ⟨fun right later => ?_, ih _⟩
        exact (range_inside later).1
      · exact ih _

/-- No byte of a range in use is one of a header. -/
theorem range_not_header (member : range ∈ ranges head place segments) {i : Nat}
    (low : range.1 ≤ i) (high : i < range.1 + range.2)
    : ¬InHeader head place segments i := by
  induction segments generalizing place with
  | nil => cases member
  | cons segment rest ih =>
      have bounds := range_inside member
      rintro (here | later)
      · omega
      · rw [ranges] at member
        split at member
        · rcases List.mem_cons.mp member with rfl | found
          · have within := later.inside
            dsimp only at high
            omega
          · exact ih found later
        · exact ih member later

/-- Behind the header of a hole no range in use begins. -/
theorem hole_fresh (positive : 0 < head) {hole : Nat} (free : hole ∈ holes head place segments)
    (member : range ∈ ranges head place segments)
    : range.1 ≠ hole + head := by
  obtain ⟨before, size, after, rfl, rfl⟩ := exists_of_mem_holes free
  rw [mem_ranges_middle] at member
  rcases member with first | ⟨used, -⟩ | later
  · have inside := range_inside first
    omega
  · cases used
  · have inside := range_inside later
    omega

/-- Between two ranges in use there is a header. -/
theorem ranges_apart {other : Nat × Nat} (member : range ∈ ranges head place segments)
    (otherMember : other ∈ ranges head place segments) (different : range ≠ other)
    : range.1 + range.2 + head ≤ other.1 ∨ other.1 + other.2 + head ≤ range.1 := by
  have symmetric : Std.Symm fun left right : Nat × Nat =>
      left.1 + left.2 + head ≤ right.1 ∨ right.1 + right.2 + head ≤ left.1 :=
    ⟨fun _ _ => Or.symm⟩
  have apart : (ranges head place segments).Pairwise fun left right =>
      left.1 + left.2 + head ≤ right.1 ∨ right.1 + right.2 + head ≤ left.1 :=
    (ranges_sorted head place segments).imp fun behind => .inl behind
  exact apart.forall member otherMember different

theorem length_le_extent (head : Nat) (segments : List Segment)
    : head * segments.length ≤ extent head segments := by
  induction segments with
  | nil => exact Nat.le_refl _
  | cons segment rest ih =>
      rw [List.length_cons, Nat.mul_succ, extent]
      omega

theorem dvd_extent {unit : Nat} (whole : unit ∣ head)
    (sizes : ∀ segment ∈ segments, unit ∣ segment.size)
    : unit ∣ extent head segments := by
  induction segments with
  | nil => exact Nat.dvd_zero _
  | cons segment rest ih =>
      rw [extent]
      have first := Nat.dvd_add whole (sizes segment (.head _))
      exact Nat.dvd_add first (ih fun other member => sizes other (.tail _ member))

/-- Without a range in use nothing is in use. -/
theorem usage_eq_zero (none : ∀ range, range ∉ ranges head place segments)
    : usage head segments = 0 := by
  induction segments generalizing place with
  | nil => rfl
  | cons segment rest ih =>
      cases used : segment.used with
      | true =>
          refine absurd ?_ (none (place + head, segment.size))
          rw [ranges, if_pos used]
          exact .head _
      | false =>
          rw [usage, if_neg (by rw [used]; decide), Nat.zero_add]
          have later (range : Nat × Nat)
              : range ∉ ranges head (place + head + segment.size) rest := fun member => by
            refine none range ?_
            rw [ranges, if_neg (by rw [used]; decide)]
            exact member
          exact ih later

/-- Segments of which none is in use are one at most, when free ones do not meet. -/
theorem Coalesced.single (coalesced : Coalesced segments) (free : usage head segments = 0)
    (positive : 0 < head)
    : segments.length ≤ 1 := by
  match segments, coalesced with
  | [], _ => exact Nat.zero_le 1
  | [_], _ => exact Nat.le_refl 1
  | left :: right :: rest, chain =>
      have either := (List.isChain_cons_cons.mp chain).1
      simp only [usage] at free
      rcases either with used | used
      · rw [if_pos used] at free
        omega
      · rw [if_pos used] at free
        omega

/-- The segments around one, of which the neighbours are in use where it is free. -/
theorem coalesced_middle {segment : Segment}
    : Coalesced (before ++ segment :: after)
      ↔ Coalesced before
        ∧ Coalesced after
        ∧ (segment.used = false
          → (∀ left ∈ before.getLast?, left.used = true)
            ∧ ∀ right ∈ after.head?, right.used = true) := by
  unfold Coalesced
  rw [List.isChain_append, List.isChain_cons, List.head?_cons]
  simp only [Option.mem_def, Option.some.injEq, forall_eq']
  cases used : segment.used with
  | true => simp
  | false =>
      simp only [or_false, Bool.false_eq_true, false_or, forall_const]
      tauto

theorem coalesced_cons {segment : Segment}
    : Coalesced (segment :: after)
      ↔ Coalesced after
        ∧ (segment.used = false → ∀ right ∈ after.head?, right.used = true) := by
  have nothing : Coalesced [] := .nil
  rw [← List.nil_append (segment :: after), coalesced_middle, and_iff_right nothing]
  simp

-----------------------------------------------------------------------------------------
-- Two segments as one
-----------------------------------------------------------------------------------------

variable {size other : Nat}

theorem extent_joined (head size other : Nat) (used : Bool) (before after : List Segment)
    : extent head (before ++ { size := size + head + other, used } :: after)
      = extent head (before ++ { size, used } :: { size := other, used := false } :: after) := by
  rw [extent_append, extent_append, extent, extent, extent]
  dsimp only
  omega

/-- The ranges in use are the same, when nothing of the second one is in use. -/
theorem ranges_joined (head place size other : Nat) (before after : List Segment)
    : ranges head place (before ++ { size := size + head + other, used := false } :: after)
      = ranges head place
          (before ++ { size, used := false } :: { size := other, used := false } :: after) := by
  have next : place + extent head before + head + (size + head + other)
      = place + extent head before + head + size + head + other := by omega
  rw [ranges_append, ranges_append]
  simp only [ranges, Bool.false_eq_true, if_false, next]

theorem usage_joined (head size other : Nat) (before after : List Segment)
    : usage head (before ++ { size := size + head + other, used := false } :: after)
      = usage head
          (before ++ { size, used := false } :: { size := other, used := false } :: after) := by
  rw [usage_append, usage_append]
  simp only [usage, Bool.false_eq_true, if_false, Nat.zero_add]

/-- The hole of the second one is gone, and the first one is still there. -/
theorem mem_holes_joined {hole : Nat}
    : hole ∈ holes head place
        (before ++ { size, used := false } :: { size := other, used := false } :: after)
      ↔ hole ∈ holes head place
            (before ++ { size := size + head + other, used := false } :: after)
        ∨ hole = place + extent head before + head + size := by
  have next : place + extent head before + head + (size + head + other)
      = place + extent head before + head + size + head + other := by omega
  rw [mem_holes_middle, mem_holes_middle, mem_holes_cons]
  dsimp only
  rw [next]
  simp only [true_and]
  tauto

theorem mem_holes_here (head place size : Nat) (before after : List Segment)
    : place + extent head before
      ∈ holes head place (before ++ { size, used := false } :: after) :=
  mem_holes_middle.mpr (.inr (.inl ⟨rfl, rfl⟩))

end Segments
