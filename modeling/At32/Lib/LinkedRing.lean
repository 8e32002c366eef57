import Mathlib.Data.List.Chain
import Mathlib.Data.List.Nodup
import Mathlib.Logic.Relation
import Mathlib.Tactic.Common

/-! Doubly linked rings: a head and nodes, each with a link to the next one and a link back. The
links are partial functions on the addresses.
-/

namespace LinkedRing

variable {α : Type*} {after before after' before' : α → Option α} {head : α} {nodes : List α}

/-- Two neighbours, linked both ways. -/
def Linked (after before : α → Option α) (x y : α) : Prop :=
  after x = some y ∧ before y = some x

/-- The nodes behind the head, in their order, and back to the head. -/
structure Ring (after before : α → Option α) (head : α) (nodes : List α) : Prop where
  linked : (head :: (nodes ++ [head])).IsChain (Linked after before)
  distinct : (head :: nodes).Nodup

/-- What one link away is. -/
def Step (after before : α → Option α) (x y : α) : Prop :=
  after x = some y ∨ before x = some y

/-- What links lead to, in any order of directions. -/
def Reachable (after before : α → Option α) : α → α → Prop :=
  Relation.ReflTransGen (Step after before)

/-- The nodes on the way along links up to a stop, for at most so many links. -/
def walk [DecidableEq α] (next : α → Option α) (stop : α) : Nat → α → Option (List α)
  | 0, _ => none
  | fuel + 1, x =>
      match next x with
      | none => none
      | some y => if y = stop then some [] else (walk next stop fuel y).map (y :: ·)

-----------------------------------------------------------------------------------------
-- What a ring has
-----------------------------------------------------------------------------------------

/-- A head that is linked to itself. -/
theorem Ring.empty (next : after head = some head) (previous : before head = some head)
    : Ring after before head [] :=
  ⟨.cons_cons ⟨next, previous⟩ (.singleton head), List.nodup_singleton head⟩

/-- A ring seen from behind. -/
theorem Ring.reverse (ring : Ring after before head nodes)
    : Ring before after head nodes.reverse := by
  refine ⟨?_, ?_⟩
  · have linked := List.isChain_reverse.mpr (ring.linked.imp fun _ _ link => And.symm link)
    rwa [List.reverse_cons, List.reverse_append, List.reverse_singleton, List.singleton_append,
      List.cons_append] at linked
  · have ⟨other, distinct⟩ := List.nodup_cons.mp ring.distinct
    exact List.nodup_cons.mpr ⟨mt List.mem_reverse.mp other, List.nodup_reverse.mpr distinct⟩

/-- Each member of a ring is linked to a member behind it. -/
theorem Ring.next (ring : Ring after before head nodes) {x : α} (member : x ∈ head :: nodes)
    : ∃ y ∈ head :: nodes, Linked after before x y := by
  obtain ⟨left, right, split⟩ := List.append_of_mem member
  have whole : head :: (nodes ++ [head]) = left ++ x :: (right ++ [head]) := by
    rw [← List.cons_append, split, List.append_assoc, List.cons_append]
  have linked := ring.linked
  rw [whole] at linked
  cases right with
  | nil =>
      exact ⟨head, List.mem_cons_self, (List.isChain_append_cons_cons.mp linked).2.1⟩
  | cons y right =>
      refine ⟨y, ?_, (List.isChain_append_cons_cons.mp linked).2.1⟩
      rw [split]
      exact List.mem_append_right left (List.mem_cons_of_mem x List.mem_cons_self)

/-- Each member of a ring is linked to a member before it. -/
theorem Ring.previous (ring : Ring after before head nodes) {x : α}
    (member : x ∈ head :: nodes)
    : ∃ y ∈ head :: nodes, Linked after before y x := by
  have turned : x ∈ head :: nodes.reverse :=
    (List.mem_cons.mp member).elim (fun same => List.mem_cons.mpr (.inl same)) fun inside =>
      List.mem_cons_of_mem head (List.mem_reverse.mpr inside)
  obtain ⟨y, found, link⟩ := ring.reverse.next turned
  refine ⟨y, ?_, And.symm link⟩
  exact (List.mem_cons.mp found).elim (fun same => List.mem_cons.mpr (.inl same)) fun inside =>
    List.mem_cons_of_mem head (List.mem_reverse.mp inside)

/-- The last two nodes, and the head behind them. -/
theorem Ring.ends {previous last : α} (ring : Ring after before head (nodes ++ [previous, last]))
    : Linked after before previous last ∧ Linked after before last head := by
  have linked := ring.linked
  rw [List.append_assoc] at linked
  obtain ⟨_, link, rest⟩ := List.isChain_cons_append_cons_cons.mp linked
  exact ⟨link, List.isChain_pair.mp rest⟩

/-- With another node before the last one, the head is not linked to the last one. -/
theorem Ring.after_head_ne {previous last : α} (ring : Ring after before head nodes)
    (link : before last = some previous) (other : head ≠ previous)
    : after head ≠ some last := by
  intro follows
  obtain ⟨first, _, next⟩ := ring.next List.mem_cons_self
  obtain rfl : first = last := Option.some.inj (next.1.symm.trans follows)
  exact other (Option.some.inj (next.2.symm.trans link))

/-- Links lead nowhere else; by induction on the way. -/
theorem Ring.reachable (ring : Ring after before head nodes) {x : α}
    (way : Reachable after before head x)
    : x ∈ head :: nodes := by
  induction way with
  | refl => exact List.mem_cons_self
  | tail _ step ih =>
      cases step with
      | inl next =>
          obtain ⟨y, member, link⟩ := ring.next ih
          rwa [← Option.some.inj (link.1.symm.trans next)]
      | inr previous =>
          obtain ⟨y, member, link⟩ := ring.previous ih
          rwa [← Option.some.inj (link.2.symm.trans previous)]

/-- A walk along a chain up to its last element; by induction on the elements between. -/
theorem walk_chain [DecidableEq α] {next : α → Option α} {stop x : α}
    (linked : (x :: (nodes ++ [stop])).IsChain (fun x y => next x = some y))
    (other : stop ∉ nodes) {fuel : Nat} (enough : nodes.length < fuel)
    : walk next stop fuel x = some nodes := by
  induction nodes generalizing x fuel with
  | nil =>
      obtain ⟨fuel, rfl⟩ := Nat.exists_eq_add_one_of_ne_zero (Nat.ne_of_gt enough)
      rw [List.nil_append, List.isChain_pair] at linked
      simp only [walk, linked, if_pos]
  | cons y nodes ih =>
      obtain ⟨fuel, rfl⟩ :=
        Nat.exists_eq_add_one_of_ne_zero (Nat.ne_of_gt (Nat.zero_lt_of_lt enough))
      obtain ⟨here, later⟩ := List.isChain_cons_cons.mp linked
      have differs : y ≠ stop := fun same => other (same ▸ List.mem_cons_self)
      have rest := ih later (fun inside => other (List.mem_cons_of_mem y inside))
        (Nat.lt_of_succ_lt_succ enough)
      simp only [walk, here, if_neg differs, rest, Option.map_some]

theorem Ring.walk_after [DecidableEq α] (ring : Ring after before head nodes) {fuel : Nat}
    (enough : nodes.length < fuel)
    : walk after head fuel head = some nodes :=
  walk_chain (ring.linked.imp fun _ _ link => link.1) (List.nodup_cons.mp ring.distinct).1 enough

theorem Ring.walk_before [DecidableEq α] (ring : Ring after before head nodes) {fuel : Nat}
    (enough : nodes.length < fuel)
    : walk before head fuel head = some nodes.reverse :=
  ring.reverse.walk_after (by rwa [List.length_reverse])

-----------------------------------------------------------------------------------------
-- Changes of a ring
-----------------------------------------------------------------------------------------

/-- A new node between the head and what followed it. -/
theorem Ring.insert (ring : Ring after before head nodes) {new first : α}
    (fresh : new ∉ head :: nodes) (follows : after head = some first)
    (afterHead : after' head = some new) (afterNew : after' new = some first)
    (afterRest : ∀ x, x ≠ head → x ≠ new → after' x = after x)
    (beforeFirst : before' first = some new) (beforeNew : before' new = some head)
    (beforeRest : ∀ x, x ≠ first → x ≠ new → before' x = before x)
    : Ring after' before' head (new :: nodes) := by
  have ⟨other, distinct⟩ := List.nodup_cons.mp ring.distinct
  have ⟨notHead, notInside⟩ := not_or.mp (mt List.mem_cons.mpr fresh)
  refine ⟨?_, ?_⟩
  · refine .cons_cons ⟨afterHead, beforeNew⟩ ?_
    cases nodes with
    | nil =>
        have same : first = head :=
          Option.some.inj (follows.symm.trans (List.isChain_pair.mp ring.linked).1)
        exact .cons_cons ⟨same ▸ afterNew, same ▸ beforeFirst⟩ (.singleton head)
    | cons second rest =>
        obtain ⟨link, later⟩ := List.isChain_cons_cons.mp ring.linked
        obtain rfl : first = second := Option.some.inj (follows.symm.trans link.1)
        refine .cons_cons ⟨afterNew, beforeFirst⟩ (later.imp_of_mem_tail_imp ?_)
        -- no link behind the first node starts at the head or leads to the first node
        intro x y here inside inner
        have notFirst : y ≠ first := by
          rintro rfl
          rcases List.mem_append.mp inside with again | last
          · exact (List.nodup_cons.mp distinct).1 again
          · exact other (List.mem_singleton.mp last ▸ List.mem_cons_self)
        have start : x ≠ head := by
          rintro rfl
          exact notFirst (Option.some.inj (inner.1.symm.trans follows))
        have members : ∀ z ∈ first :: (rest ++ [head]), z ≠ new := by
          rintro z inside rfl
          rcases List.mem_append.mp (List.cons_append ▸ inside) with again | last
          · exact notInside again
          · exact notHead (List.mem_singleton.mp last)
        refine ⟨?_, ?_⟩
        · rw [afterRest x start (members x here), inner.1]
        · rw [beforeRest y notFirst (members y (List.mem_cons_of_mem first inside)), inner.2]
  · refine List.nodup_cons.mpr ⟨fun inside => ?_, List.nodup_cons.mpr ⟨notInside, distinct⟩⟩
    exact (List.mem_cons.mp inside).elim (fun same => notHead same.symm) other

/-- The last node taken out. -/
theorem Ring.removeLast {last previous : α} (ring : Ring after before head (nodes ++ [last]))
    (precedes : before last = some previous) (afterPrevious : after' previous = some head)
    (afterRest : ∀ x, x ≠ previous → x ≠ last → after' x = after x)
    (beforeHead : before' head = some previous)
    (beforeRest : ∀ x, x ≠ head → x ≠ last → before' x = before x)
    : Ring after' before' head nodes := by
  have distinct := ring.distinct
  rw [← List.cons_append] at distinct
  obtain ⟨kept, -, apart⟩ := List.nodup_append.mp distinct
  have outside : ∀ z ∈ head :: nodes, z ≠ last := fun z inside =>
    apart z inside last (List.mem_singleton_self last)
  refine ⟨?_, kept⟩
  obtain ⟨front, end', split⟩ : ∃ front end', head :: nodes = front ++ [end'] :=
    ⟨_, _, (List.dropLast_append_getLast (List.cons_ne_nil head nodes)).symm⟩
  have linked := ring.linked
  have whole : head :: (nodes ++ [last] ++ [head]) = front ++ end' :: last :: [head] := by
    rw [List.append_assoc, ← List.cons_append, split, List.append_assoc]
    rfl
  rw [whole] at linked
  obtain ⟨inner, link, -⟩ := List.isChain_append_cons_cons.mp linked
  obtain rfl : end' = previous := Option.some.inj (link.2.symm.trans precedes)
  rw [← List.cons_append, split, List.append_assoc]
  refine List.isChain_append_cons_cons.mpr ⟨?_, ⟨afterPrevious, beforeHead⟩, .singleton head⟩
  rw [← split] at inner ⊢
  refine inner.imp_of_mem_tail_imp ?_
  -- no link between the nodes left starts at the new last one or leads to the head
  intro x y here inside inner
  have notLast : y ≠ last := outside y (List.mem_cons_of_mem head inside)
  have notEnd : x ≠ end' := by
    rintro rfl
    exact notLast (Option.some.inj (inner.1.symm.trans link.1))
  have notHead : y ≠ head := by
    rintro rfl
    exact (List.nodup_cons.mp kept).1 inside
  refine ⟨?_, ?_⟩
  · rw [afterRest x notEnd (outside x here), inner.1]
  · rw [beforeRest y notHead notLast, inner.2]

end LinkedRing
