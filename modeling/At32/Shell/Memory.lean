import At32.Shell.History

/-! The memory of the history list: every block that malloc gave for it is in the list or has
been freed, and the rest of the heap is as it was.
-/

namespace At32.Link

open LinkedRing Transducer

variable {Addr Data : Type} [DecidableEq Addr]

/-- What the list has of the heap, for the heap before it was made: the blocks taken are its nodes
and those that were freed, no node was in use before, and outside the list nothing has changed.
-/
structure Owns (before : Heap Addr Data) (head : Addr) (heap : Heap Addr Data)
    (entries : List (Addr × Data)) (taken freed : List Addr)
    : Prop where
  holds : Holds heap head entries
  blocks : taken.Perm (entries.map Prod.fst ++ freed)
  unused : ∀ x ∈ entries.map Prod.fst, before x = none
  rest : ∀ x, x ≠ head → x ∉ entries.map Prod.fst → heap x = before x

-----------------------------------------------------------------------------------------
-- What the functions leave alone
-----------------------------------------------------------------------------------------

/-- Two parts of a function that both return. -/
theorem bind_eq_ok {α β : Type} {first : Except Fault α} {next : α → Except Fault β} {result : β}
    : (first >>= next) = .ok result ↔ ∃ value, first = .ok value ∧ next value = .ok result := by
  cases first with
  | error fault => exact iff_of_false (by rintro ⟨⟩) (by rintro ⟨_, ⟨⟩, _⟩)
  | ok value => simp [ok_bind]

omit [DecidableEq Addr] in
/-- A load that returns reads its cell. -/
theorem Heap.load_eq_ok {heap : Heap Addr Data} {pointer : Option Addr} {node : Dll Addr Data}
    (loaded : heap.load pointer = .ok node)
    : ∃ address, pointer = some address ∧ heap address = some node := by
  cases pointer with
  | none => cases loaded
  | some address =>
      refine ⟨address, rfl, ?_⟩
      cases stored : heap address with
      | none => simp [Heap.load, stored] at loaded
      | some other => simpa [Heap.load, stored] using loaded

/-- A change that returns is one of its cell. -/
theorem Heap.change_other {heap heap' : Heap Addr Data} {f : Dll Addr Data → Dll Addr Data}
    {pointer : Option Addr} (changed : heap.change f pointer = .ok heap') {x : Addr}
    (other : pointer ≠ some x)
    : heap' x = heap x := by
  cases pointer with
  | none => cases changed
  | some address =>
      cases stored : heap address with
      | none => simp [Heap.change, stored] at changed
      | some node =>
          rw [Heap.change_eq stored] at changed
          rw [← Except.ok.inj changed, Function.update_of_ne fun same => other (congrArg some same.symm)]

theorem createHead_other {block : Block Addr Data} {heap heap' : Heap Addr Data}
    (created : createHead block heap = .ok heap') {x : Addr} (other : x ≠ block.address)
    : heap' x = heap x := by
  have apart : some block.address ≠ some x := fun same => other (Option.some.inj same).symm
  unfold createHead at created
  rw [Heap.change_other created apart, Heap.malloc, Function.update_of_ne other]

theorem createNode_other {data : Data} {block : Block Addr Data} {heap heap' : Heap Addr Data}
    (made : createNode data block heap = .ok heap') {x : Addr} (other : x ≠ block.address)
    : heap' x = heap x := by
  have apart : some block.address ≠ some x := fun same => other (Option.some.inj same).symm
  obtain ⟨named, first, second⟩ := bind_eq_ok.mp made
  rw [Heap.change_other second apart, Heap.change_other first apart, Heap.malloc,
    Function.update_of_ne other]

/-- Linking a new node touches it, the head and the node that was first. -/
theorem linkHead_other {head : Addr} {data : Data} {block : Block Addr Data}
    {heap heap' : Heap Addr Data} (linked : linkHead head data block heap = .ok heap')
    (headOther : head ≠ block.address) {x : Addr} (notNew : x ≠ block.address)
    (notHead : x ≠ head) (notFirst : heap.after head ≠ some x)
    : heap' x = heap x := by
  have newOther : some block.address ≠ some x := fun same => notNew (Option.some.inj same).symm
  have headApart : some head ≠ some x := fun same => notHead (Option.some.inj same).symm
  obtain ⟨made, node, linked⟩ := bind_eq_ok.mp linked
  obtain ⟨_, _, linked⟩ := bind_eq_ok.mp linked
  obtain ⟨pointed, toFirst, linked⟩ := bind_eq_ok.mp linked
  obtain ⟨headNode, loaded, linked⟩ := bind_eq_ok.mp linked
  obtain ⟨_, fromFirst, linked⟩ := bind_eq_ok.mp linked
  obtain ⟨_, fromHead, toHead⟩ := bind_eq_ok.mp linked
  have first : headNode.afterNode ≠ some x := by
    obtain ⟨address, same, stored⟩ := Heap.load_eq_ok loaded
    obtain rfl := Option.some.inj same
    rw [Heap.change_other toFirst fun same => headOther (Option.some.inj same).symm,
      createNode_other node headOther] at stored
    rwa [Heap.after, stored, Option.bind_some] at notFirst
  rw [Heap.change_other toHead newOther, Heap.change_other fromHead headApart,
    Heap.change_other fromFirst first, Heap.change_other toFirst newOther,
    createNode_other node notNew]

omit [DecidableEq Addr] in
/-- The link back of a member of the list leads to a member. -/
theorem Holds.before_mem {heap : Heap Addr Data} {head : Addr} {entries : List (Addr × Data)}
    (holds : Holds heap head entries) {x y : Addr} (member : x ∈ head :: entries.map Prod.fst)
    (link : heap.before x = some y)
    : y ∈ head :: entries.map Prod.fst := by
  obtain ⟨z, inside, linked⟩ := holds.ring.previous member
  obtain rfl := Option.some.inj (link.symm.trans linked.2)
  exact inside

/-- Taking out the last node touches nothing outside the list. -/
theorem deleterEnd_other {head : Addr} {heap heap' : Heap Addr Data} {freed : List Addr}
    {entries : List (Addr × Data)} (holds : Holds heap head entries)
    (deleted : deleterEnd head heap = .ok (heap', freed)) {x : Addr}
    (outside : x ∉ head :: entries.map Prod.fst)
    : heap' x = heap x := by
  obtain ⟨first, loaded, deleted⟩ := bind_eq_ok.mp deleted
  split at deleted
  · rw [← (Prod.mk.inj (Except.ok.inj deleted)).1]
  · obtain ⟨last, lastLoaded, deleted⟩ := bind_eq_ok.mp deleted
    obtain ⟨_, fromPrevious, deleted⟩ := bind_eq_ok.mp deleted
    obtain ⟨again, _, deleted⟩ := bind_eq_ok.mp deleted
    obtain ⟨_, fromHead, deleted⟩ := bind_eq_ok.mp deleted
    obtain ⟨_, same, atHead⟩ := Heap.load_eq_ok loaded
    obtain rfl := Option.some.inj same
    obtain ⟨end', toEnd, atEnd⟩ := Heap.load_eq_ok lastLoaded
    have endLink : heap.before head = some end' := by rw [Heap.before, atHead]; exact toEnd
    have endIn := holds.before_mem List.mem_cons_self endLink
    have previousOther : last.beforeNode ≠ some x := fun same =>
      outside (holds.before_mem endIn (by rw [Heap.before, atEnd]; exact same))
    have headOther : some head ≠ some x := fun same =>
      outside (Option.some.inj same ▸ List.mem_cons_self)
    have endOther : x ≠ end' := fun same => outside (same ▸ endIn)
    rw [← (Prod.mk.inj (Except.ok.inj deleted)).1, toEnd, Heap.free,
      Function.update_of_ne endOther, Heap.change_other fromHead headOther,
      Heap.change_other fromPrevious previousOther]

/-- What deleter_end frees, behind the linking of a new node. -/
theorem deleterEnd_freed {head : Addr} {heap heap' : Heap Addr Data} {freed : List Addr}
    {entry : Addr × Data} {entries : List (Addr × Data)}
    (holds : Holds heap head (entry :: entries))
    (deleted : deleterEnd head heap = .ok (heap', freed)) {tatol : UInt32}
    (limit : tatol + 1 = HOIS_SIZE)
    : (entry :: entries).map Prod.fst
      = (record tatol entries entry).map Prod.fst ++ freed := by
  by_cases none : entries = []
  · subst none
    have short := deleterEnd_short holds (Nat.le_refl 1)
    rw [← (Prod.mk.inj (Except.ok.inj (short.symm.trans deleted))).2, record,
      if_neg fun both => both.2 rfl, List.append_nil]
  · obtain ⟨front, last, split⟩ : ∃ front last, entry :: entries = front ++ [last] :=
      ⟨_, _, (List.dropLast_append_getLast (List.cons_ne_nil entry entries)).symm⟩
    have more : front ≠ [] := by
      rintro rfl
      exact none (List.cons.inj split).2
    obtain ⟨start, previous, rfl⟩ : ∃ start previous, front = start ++ [previous] :=
      ⟨_, _, (List.dropLast_append_getLast more).symm⟩
    rw [split] at holds
    obtain ⟨_, long, _⟩ := deleterEnd_long holds
    rw [← (Prod.mk.inj (Except.ok.inj (long.symm.trans deleted))).2, record,
      if_pos ⟨limit, none⟩, split, List.dropLast_concat, @List.map_append _ _ Prod.fst _ [last]]
    rfl

/-- What install_head takes and frees, and that it touches nothing else. -/
theorem installHead_other {s next : State Addr Data} {head : Addr}
    {entries : List (Addr × Data)} (holds : Holds s.heap head entries)
    {call : Block Addr Data × Data} (fresh : Fresh s call) {freed : List Addr}
    (installed : installHead head s call = .ok (next, freed))
    : (entryOf call :: entries).map Prod.fst
        = (record s.tatol entries (entryOf call)).map Prod.fst ++ freed
      ∧ ∀ x ∉ head :: (entryOf call :: entries).map Prod.fst, next.heap x = s.heap x := by
  obtain ⟨heap, linked, _, longer⟩ := linkHead_holds holds fresh call.2
  have headOther : head ≠ call.1.address := by
    rintro rfl
    obtain ⟨node, allocated⟩ := holds.allocated List.mem_cons_self
    cases allocated.symm.trans fresh
  have kept : ∀ x ∉ head :: (entryOf call :: entries).map Prod.fst, heap x = s.heap x := by
    intro x outside
    simp only [List.map_cons, List.mem_cons, not_or] at outside
    refine linkHead_other linked headOther outside.2.1 outside.1 fun follows => ?_
    obtain ⟨y, inside, link⟩ := holds.ring.next List.mem_cons_self
    obtain rfl := Option.some.inj (follows.symm.trans link.1)
    exact (List.mem_cons.mp inside).elim outside.1 outside.2.2
  obtain ⟨_, again, installed⟩ := bind_eq_ok.mp installed
  obtain rfl := Except.ok.inj (linked.symm.trans again)
  by_cases limit : s.tatol + 1 = HOIS_SIZE
  · simp only [if_pos limit] at installed
    obtain ⟨⟨heap', out⟩, deleted, installed⟩ := bind_eq_ok.mp installed
    obtain ⟨rfl, rfl⟩ := Prod.mk.inj (Except.ok.inj installed)
    exact ⟨deleterEnd_freed longer deleted limit, fun x outside =>
      (deleterEnd_other longer deleted outside).trans (kept x outside)⟩
  · simp only [if_neg limit] at installed
    obtain ⟨rfl, rfl⟩ := Prod.mk.inj (Except.ok.inj installed)
    refine ⟨?_, kept⟩
    rw [record, if_neg fun both => limit both.1, List.append_nil]

-----------------------------------------------------------------------------------------
-- Runs
-----------------------------------------------------------------------------------------

omit [DecidableEq Addr] in
/-- A list that was just made has nothing but its head. -/
theorem Owns.nil {before heap : Heap Addr Data} {head : Addr} (holds : Holds heap head [])
    (rest : ∀ x, x ≠ head → heap x = before x)
    : Owns before head heap [] [] [] where
  holds := holds
  blocks := .refl _
  unused _ none := by cases none
  rest x other _ := rest x other

/-- install_head keeps the account. -/
theorem Owns.installHead {before : Heap Addr Data} {head : Addr} {s : State Addr Data}
    {entries : List (Addr × Data)} {taken freed : List Addr}
    (owns : Owns before head s.heap entries taken freed) {call : Block Addr Data × Data}
    (fresh : Fresh s call)
    : ∃ next out,
        installHead head s call = .ok (next, out)
        ∧ Owns before head next.heap (record s.tatol entries (entryOf call))
            (taken ++ [call.1.address]) (freed ++ out) := by
  obtain ⟨next, out, installed, _, _, gone, holds⟩ := installHead_holds owns.holds fresh
  obtain ⟨blocks, kept⟩ := installHead_other owns.holds fresh installed
  have unused : ∀ x ∈ (entryOf call :: entries).map Prod.fst, before x = none := by
    intro x member
    obtain rfl | old := List.mem_cons.mp member
    · have outside {x : Addr} (member : x ∈ head :: entries.map Prod.fst)
          : call.1.address ≠ x := by
        rintro rfl
        obtain ⟨node, allocated⟩ := owns.holds.allocated member
        cases allocated.symm.trans fresh
      rw [← fresh]
      exact (owns.rest _ (outside List.mem_cons_self) fun member =>
        outside (List.mem_cons_of_mem head member) rfl).symm
    · exact owns.unused x old
  refine ⟨next, out, installed, holds, ?_, ?_, ?_⟩
  · have front : (entryOf call :: entries).map Prod.fst ++ freed
        = (record s.tatol entries (entryOf call)).map Prod.fst ++ (out ++ freed) := by
      rw [blocks, List.append_assoc]
    calc (taken ++ [call.1.address])
        |>.Perm (call.1.address :: (entries.map Prod.fst ++ freed)) :=
          (List.perm_append_singleton _ _).trans (owns.blocks.cons _)
      _ = (record s.tatol entries (entryOf call)).map Prod.fst ++ (out ++ freed) := front
      _ |>.Perm ((record s.tatol entries (entryOf call)).map Prod.fst ++ (freed ++ out)) :=
          List.perm_append_comm.append_left _
  · intro x member
    exact unused x (blocks ▸ List.mem_append_left out member)
  · intro x notHead notNode
    by_cases freed : x ∈ out
    · rw [gone x freed, unused x (blocks ▸ List.mem_append_right _ freed)]
    · have outside : x ∉ (entryOf call :: entries).map Prod.fst := by
        rw [blocks]
        exact fun member => (List.mem_append.mp member).elim notNode freed
      rw [kept x fun member => (List.mem_cons.mp member).elim notHead outside]
      exact owns.rest x notHead fun old => outside (List.mem_cons_of_mem _ old)

/-- So do any calls, by induction on them. -/
theorem Owns.run {before : Heap Addr Data} {head : Addr} {s : State Addr Data}
    {entries : List (Addr × Data)} {taken freed : List Addr}
    (owns : Owns before head s.heap entries taken freed) {calls : List (Block Addr Data × Data)}
    (fresh : StepsMeet (Link.installHead head) Fresh s calls)
    : ∃ last out left,
        Transducer.run (Link.installHead head) s calls = .ok (last, out)
        ∧ Owns before head last.heap left (taken ++ calls.map fun call => call.1.address)
            (freed ++ out) := by
  induction calls generalizing s entries taken freed with
  | nil =>
      refine ⟨s, [], entries, rfl, ?_⟩
      rwa [List.map_nil, List.append_nil, List.append_nil]
  | cons call calls ih =>
      obtain ⟨next, out, installed, kept⟩ := owns.installHead fresh.1
      obtain ⟨last, more, left, ran, kept⟩ := ih kept (fresh.2 next out installed)
      refine ⟨last, out ++ more, left, ?_, ?_⟩
      · exact @run_append _ _ _ _ _ s next last [call] calls out more
          (by rw [run_singleton, installed]) ran
      · rwa [List.append_assoc, List.singleton_append, List.append_assoc] at kept

/-- After any calls on a list that create_head made, with memory that is not in use: the blocks
that malloc gave for them are the nodes of the list and those that were freed, each once; and
apart from the list every cell of the heap holds what it did before create_head.
-/
theorem installHead_accounted {block : Block Addr Data} {heap heap' : Heap Addr Data}
    (created : createHead block heap = .ok heap') (tatol : UInt32)
    (calls : List (Block Addr Data × Data))
    (fresh : StepsMeet (installHead block.address) Fresh ⟨heap', tatol⟩ calls)
    : ∃ last freed nodes,
        run (installHead block.address) ⟨heap', tatol⟩ calls = .ok (last, freed)
        ∧ (∀ fuel, nodes.length < fuel
            → walk last.heap.after block.address fuel block.address = some nodes)
        ∧ (calls.map fun call => call.1.address).Perm (nodes ++ freed)
        ∧ ∀ x, x ≠ block.address → x ∉ nodes → last.heap x = heap x := by
  obtain ⟨made, same, holds⟩ := createHead_holds block heap
  obtain rfl := Except.ok.inj (created.symm.trans same)
  have owns := Owns.nil holds fun x other => createHead_other created other
  obtain ⟨last, freed, left, ran, owns⟩ := owns.run (s := ⟨heap', tatol⟩) fresh
  exact ⟨last, freed, left.map Prod.fst, ran, fun fuel enough => owns.holds.ring.walk_after enough,
    owns.blocks, owns.rest⟩

theorem installHead_accounted_reused
    : ∃ last freed nodes,
        run (installHead 0) ⟨emptyList, 98⟩ [(blockAt 1, 10), (blockAt 2, 20), (blockAt 1, 30)]
          = .ok (last, freed)
        ∧ (∀ fuel, nodes.length < fuel → walk last.heap.after 0 fuel 0 = some nodes)
        ∧ [1, 2, 1].Perm (nodes ++ freed)
        ∧ ∀ x, x ≠ 0 → x ∉ nodes → last.heap x = none :=
  @installHead_accounted Nat Nat _ (blockAt 0) (fun _ => none) emptyList createHead_emptyList 98
    [(blockAt 1, 10), (blockAt 2, 20), (blockAt 1, 30)] (by decide)

end At32.Link
