import At32.Lib.LinkedRing
import At32.Lib.Transducer
import Mathlib.Logic.Function.Basic

/-! The history list of the shell: nodes on a heap, put in at the head and, when a counter of all
insertions is the limit, taken out at the end.
-/

namespace At32.Link

open LinkedRing Transducer

abbrev HOIS_SIZE : UInt32 := 100

/-- A node. A pointer may be NULL. -/
structure Dll (Addr Data : Type) where
  historyCommand : Data
  beforeNode : Option Addr
  afterNode : Option Addr
  deriving DecidableEq, Repr

/-- What is allocated. -/
abbrev Heap (Addr Data : Type) := Addr → Option (Dll Addr Data)

/-- An access through NULL, or to memory that is not allocated. -/
inductive Fault
  | null
  | unallocated
  deriving DecidableEq, Repr

/-- A block of malloc: where it is, and what it happens to hold. -/
structure Block (Addr Data : Type) where
  address : Addr
  content : Dll Addr Data
  deriving DecidableEq, Repr

/-- The heap, and tatol. -/
structure State (Addr Data : Type) where
  heap : Heap Addr Data
  tatol : UInt32

section Memory

variable {Addr Data : Type} [DecidableEq Addr]

def Heap.load (heap : Heap Addr Data) : Option Addr → Except Fault (Dll Addr Data)
  | none => .error .null
  | some address =>
      match heap address with
      | none => .error .unallocated
      | some node => .ok node

def Heap.change (heap : Heap Addr Data) (f : Dll Addr Data → Dll Addr Data)
    : Option Addr → Except Fault (Heap Addr Data)
  | none => .error .null
  | some address =>
      match heap address with
      | none => .error .unallocated
      | some node => .ok (Function.update heap address (some (f node)))

def Heap.malloc (heap : Heap Addr Data) (block : Block Addr Data) : Heap Addr Data :=
  Function.update heap block.address (some block.content)

def Heap.free (heap : Heap Addr Data) : Option Addr → Heap Addr Data
  | none => heap
  | some address => Function.update heap address none

end Memory

variable {Addr Data : Type} [DecidableEq Addr]

/-- create_head -/
def createHead (block : Block Addr Data) (heap : Heap Addr Data)
    : Except Fault (Heap Addr Data) :=
  let head := some block.address
  let heap := heap.malloc block
  heap.change (fun node => { node with beforeNode := head, afterNode := head }) head

/-- create_node -/
def createNode (data : Data) (block : Block Addr Data) (heap : Heap Addr Data)
    : Except Fault (Heap Addr Data) := do
  let node := some block.address
  let heap := heap.malloc block
  let heap ← heap.change (fun node => { node with historyCommand := data }) node
  heap.change (fun node => { node with afterNode := none, beforeNode := none }) node

/-- deleter_end, with what it frees -/
def deleterEnd (head : Addr) (heap : Heap Addr Data)
    : Except Fault (Heap Addr Data × List Addr) := do
  let first ← heap.load (some head)
  if first.afterNode = first.beforeNode then
    return (heap, [])
  else
    let temp := first.beforeNode
    let last ← heap.load temp
    let heap ← heap.change (fun node => { node with afterNode := some head }) last.beforeNode
    let last ← heap.load temp
    let heap ← heap.change (fun node => { node with beforeNode := last.beforeNode }) (some head)
    return (heap.free temp, temp.toList)

/-- install_head up to its counter: the new node and its links -/
def linkHead (head : Addr) (data : Data) (block : Block Addr Data) (heap : Heap Addr Data)
    : Except Fault (Heap Addr Data) := do
  let node := some block.address
  let heap ← createNode data block heap
  let first ← heap.load (some head)
  let heap ← heap.change (fun node => { node with afterNode := first.afterNode }) node
  let first ← heap.load (some head)
  let heap ← heap.change (fun other => { other with beforeNode := node }) first.afterNode
  let heap ← heap.change (fun other => { other with afterNode := node }) (some head)
  heap.change (fun node => { node with beforeNode := some head }) node

/-- install_head, for the block that malloc gives and the command, with what it frees -/
def installHead (head : Addr) (s : State Addr Data) (call : Block Addr Data × Data)
    : Except Fault (State Addr Data × List Addr) := do
  let heap ← linkHead head call.2 call.1 s.heap
  let tatol := s.tatol + 1
  if tatol = HOIS_SIZE then
    let (heap, freed) ← deleterEnd head heap
    return ({ heap, tatol }, freed)
  else
    return ({ heap, tatol }, [])

/-- The links of the nodes that are allocated. -/
def Heap.after (heap : Heap Addr Data) (x : Addr) : Option Addr :=
  (heap x).bind Dll.afterNode

def Heap.before (heap : Heap Addr Data) (x : Addr) : Option Addr :=
  (heap x).bind Dll.beforeNode

def Heap.command (heap : Heap Addr Data) (x : Addr) : Option Data :=
  (heap x).map Dll.historyCommand

/-- malloc gives memory that is not in use. -/
def Fresh (s : State Addr Data) (call : Block Addr Data × Data) : Prop :=
  s.heap call.1.address = none

/-- The list at a head: a ring, and the commands at its nodes. -/
structure Holds (heap : Heap Addr Data) (head : Addr) (entries : List (Addr × Data)) : Prop where
  ring : Ring heap.after heap.before head (entries.map Prod.fst)
  commands : ∀ entry ∈ entries, heap.command entry.1 = some entry.2

/-- install_head on the entries, newest first: what deleter_end leaves of two or more when the
counter is the limit.
-/
def record (tatol : UInt32) (entries : List (Addr × Data)) (entry : Addr × Data)
    : List (Addr × Data) :=
  if tatol + 1 = HOIS_SIZE ∧ entries ≠ [] then (entry :: entries).dropLast else entry :: entries

-----------------------------------------------------------------------------------------
-- Accesses
-----------------------------------------------------------------------------------------

theorem ok_bind {α β : Type} (value : α) (next : α → Except Fault β)
    : (Except.ok value >>= next) = next value :=
  rfl

omit [DecidableEq Addr] in
theorem Heap.load_eq {heap : Heap Addr Data} {address : Addr} {node : Dll Addr Data}
    (allocated : heap address = some node)
    : heap.load (some address) = .ok node := by
  simp only [Heap.load, allocated]

theorem Heap.change_eq {heap : Heap Addr Data} {address : Addr} {node : Dll Addr Data}
    (allocated : heap address = some node) (f : Dll Addr Data → Dll Addr Data)
    : heap.change f (some address) = .ok (Function.update heap address (some (f node))) := by
  simp only [Heap.change, allocated]

@[simp] theorem Heap.after_update (heap : Heap Addr Data) (address x : Addr)
    (node : Option (Dll Addr Data))
    : Heap.after (Function.update heap address node) x
      = if x = address then node.bind Dll.afterNode else heap.after x := by
  by_cases same : x = address <;> simp [Heap.after, same]

@[simp] theorem Heap.before_update (heap : Heap Addr Data) (address x : Addr)
    (node : Option (Dll Addr Data))
    : Heap.before (Function.update heap address node) x
      = if x = address then node.bind Dll.beforeNode else heap.before x := by
  by_cases same : x = address <;> simp [Heap.before, same]

@[simp] theorem Heap.command_update (heap : Heap Addr Data) (address x : Addr)
    (node : Option (Dll Addr Data))
    : Heap.command (Function.update heap address node) x
      = if x = address then node.map Dll.historyCommand else heap.command x := by
  by_cases same : x = address <;> simp [Heap.command, same]

omit [DecidableEq Addr] in
theorem Heap.command_eq_none {heap : Heap Addr Data} {x : Addr}
    : heap.command x = none ↔ heap x = none :=
  Option.map_eq_none_iff

omit [DecidableEq Addr] in
/-- A node of the list is allocated. -/
theorem Holds.allocated {heap : Heap Addr Data} {head : Addr} {entries : List (Addr × Data)}
    (holds : Holds heap head entries) {x : Addr} (member : x ∈ head :: entries.map Prod.fst)
    : ∃ node, heap x = some node := by
  obtain ⟨y, _, link⟩ := holds.ring.next member
  obtain ⟨node, allocated, _⟩ := Option.bind_eq_some_iff.mp link.1
  exact ⟨node, allocated⟩

/-- create_head makes an empty list. -/
theorem createHead_holds (block : Block Addr Data) (heap : Heap Addr Data)
    : ∃ heap', createHead block heap = .ok heap' ∧ Holds heap' block.address [] := by
  refine ⟨_, Heap.change_eq (Function.update_self ..) _, .empty ?_ ?_, fun _ none => ?_⟩
  · simp
  · simp
  · cases none

/-- What the links and commands are behind the linking of a new node: for a list with nodes, and
for one that is only the head.
-/
theorem linkHead_links {heap : Heap Addr Data} {head first : Addr}
    {block : Block Addr Data} {headNode firstNode : Dll Addr Data}
    (atHead : heap head = some headNode) (follows : headNode.afterNode = some first)
    (atFirst : heap first = some firstNode) (headOther : head ≠ block.address)
    (firstOther : first ≠ block.address) (data : Data)
    : ∃ heap',
        linkHead head data block heap = .ok heap'
        ∧ (∀ x, heap'.after x = if x = block.address then some first
            else if x = head then some block.address else heap.after x)
        ∧ (∀ x, heap'.before x = if x = block.address then some head
            else if x = first then some block.address else heap.before x)
        ∧ ∀ x, heap'.command x = if x = block.address then some data else heap.command x := by
  by_cases same : first = head
  · subst same
    refine ⟨_, by
      simp [linkHead, createNode, Heap.malloc, Heap.change, Heap.load, ok_bind,
        Function.update_apply, atHead, follows, headOther, headOther.symm]
      rfl, ?_, ?_, ?_⟩
    · intro x
      simp only [Heap.after_update, Option.bind_some]
      split_ifs <;> simp_all
    · intro x
      simp only [Heap.before_update, Option.bind_some]
      split_ifs <;> simp_all
    · intro x
      simp only [Heap.command_update, Option.map_some]
      split_ifs <;> simp_all [Heap.command]
  · refine ⟨_, by
      simp [linkHead, createNode, Heap.malloc, Heap.change, Heap.load, ok_bind,
        Function.update_apply, atHead, atFirst, follows, headOther, headOther.symm, firstOther,
        firstOther.symm, Ne.symm same]
      rfl, ?_, ?_, ?_⟩
    · intro x
      simp only [Heap.after_update, Option.bind_some]
      split_ifs <;> simp_all [Heap.after]
    · intro x
      simp only [Heap.before_update, Option.bind_some]
      split_ifs <;> simp_all [Heap.before]
    · intro x
      simp only [Heap.command_update, Option.map_some]
      split_ifs <;> simp_all [Heap.command]

/-- The new node is in front of the list. -/
theorem linkHead_holds {heap : Heap Addr Data} {head : Addr} {entries : List (Addr × Data)}
    (holds : Holds heap head entries) {block : Block Addr Data}
    (fresh : heap block.address = none) (data : Data)
    : ∃ heap',
        linkHead head data block heap = .ok heap'
        ∧ (∀ x, x ≠ block.address → heap x = none → heap' x = none)
        ∧ Holds heap' head ((block.address, data) :: entries) := by
  obtain ⟨headNode, atHead⟩ := holds.allocated List.mem_cons_self
  obtain ⟨first, firstIn, link⟩ := holds.ring.next List.mem_cons_self
  obtain ⟨firstNode, atFirst⟩ := holds.allocated firstIn
  have other : ∀ x ∈ head :: entries.map Prod.fst, x ≠ block.address := by
    rintro x member rfl
    obtain ⟨node, allocated⟩ := holds.allocated member
    rw [fresh] at allocated
    cases allocated
  have headOther := other head List.mem_cons_self
  have firstOther := other first firstIn
  have follows : headNode.afterNode = some first := by
    have next := link.1
    rwa [Heap.after, atHead] at next
  obtain ⟨heap', linked, after, before, command⟩ :=
    linkHead_links atHead follows atFirst headOther firstOther data
  refine ⟨heap', linked, ?_, ?_, ?_⟩
  · intro x notNew free
    rw [← Heap.command_eq_none, command, if_neg notNew]
    exact Heap.command_eq_none.mpr free
  · refine holds.ring.insert (fun member => other _ member rfl) link.1 ?_ ?_ ?_ ?_ ?_ ?_
    · rw [after, if_neg headOther, if_pos rfl]
    · rw [after, if_pos rfl]
    · intro x notHead notNew
      rw [after, if_neg notNew, if_neg notHead]
    · rw [before, if_neg firstOther, if_pos rfl]
    · rw [before, if_pos rfl]
    · intro x notFirst notNew
      rw [before, if_neg notNew, if_neg notFirst]
  · intro entry member
    rw [command]
    rcases List.mem_cons.mp member with rfl | old
    · rw [if_pos rfl]
    · have inside : entry.1 ∈ head :: entries.map Prod.fst :=
        List.mem_cons_of_mem head (List.mem_map_of_mem old)
      rw [if_neg (other _ inside), holds.commands entry old]

/-- deleter_end on a list of one node at most: the head's links are the same. -/
theorem deleterEnd_short {heap : Heap Addr Data} {head : Addr} {entries : List (Addr × Data)}
    (holds : Holds heap head entries) (short : entries.length ≤ 1)
    : deleterEnd head heap = .ok (heap, []) := by
  obtain ⟨headNode, atHead⟩ := holds.allocated List.mem_cons_self
  have same : heap.after head = heap.before head := by
    match entries, short, holds.ring.linked with
    | [], _, linked =>
        have link := List.isChain_pair.mp linked
        rw [link.1, link.2]
    | [entry], _, linked =>
        obtain ⟨first, rest⟩ := List.isChain_cons_cons.mp linked
        rw [first.1, (List.isChain_pair.mp rest).2]
  simp only [Heap.after, Heap.before, atHead, Option.bind_some] at same
  simp only [deleterEnd, Heap.load_eq atHead, ok_bind, if_pos same]
  rfl

/-- What the links and commands are behind the freeing of the last node. -/
theorem deleterEnd_links {heap : Heap Addr Data} {head previous last : Addr}
    {headNode previousNode lastNode : Dll Addr Data}
    (atHead : heap head = some headNode) (atPrevious : heap previous = some previousNode)
    (atLast : heap last = some lastNode) (beforeHead : headNode.beforeNode = some last)
    (beforeLast : lastNode.beforeNode = some previous)
    (differ : headNode.afterNode ≠ some last) (headPrevious : head ≠ previous)
    (lastPrevious : last ≠ previous)
    : ∃ heap',
        deleterEnd head heap = .ok (heap', [last])
        ∧ heap' last = none
        ∧ (∀ x, heap'.after x = if x = last then none
            else if x = previous then some head else heap.after x)
        ∧ (∀ x, heap'.before x = if x = last then none
            else if x = head then some previous else heap.before x)
        ∧ ∀ x, heap'.command x = if x = last then none else heap.command x := by
  refine ⟨_, by
    simp [deleterEnd, Heap.load, Heap.change, Heap.free, ok_bind, atHead, atPrevious, atLast,
      beforeHead, beforeLast, headPrevious, lastPrevious, differ]
    rfl, Function.update_self .., ?_, ?_, ?_⟩
  · intro x
    simp only [Heap.after_update, Option.bind_none, Option.bind_some]
    split_ifs with atLast atHead atPrevious <;> simp_all [Heap.after]
  · intro x
    simp only [Heap.before_update, Option.bind_none, Option.bind_some]
    split_ifs with atLast atHead atPrevious <;> simp_all [Heap.before]
  · intro x
    simp only [Heap.command_update, Option.map_none, Option.map_some]
    split_ifs with atLast atHead atPrevious <;> simp_all [Heap.command]

/-- deleter_end on a list of more nodes: the last one is freed. -/
theorem deleterEnd_long {heap : Heap Addr Data} {head : Addr} {entries : List (Addr × Data)}
    {previous last : Addr × Data} (holds : Holds heap head (entries ++ [previous] ++ [last]))
    : ∃ heap',
        deleterEnd head heap = .ok (heap', [last.1])
        ∧ heap' last.1 = none
        ∧ (∀ x, heap x = none → heap' x = none)
        ∧ Holds heap' head (entries ++ [previous]) := by
  have ring : Ring heap.after heap.before head
      ((entries ++ [previous]).map Prod.fst ++ [last.1]) := by
    have ring := holds.ring
    rwa [List.map_append] at ring
  obtain ⟨headNode, atHead⟩ := holds.allocated List.mem_cons_self
  have atEnd {x : Addr} (member : x = previous.1 ∨ x = last.1) : ∃ node, heap x = some node :=
    holds.allocated (by rcases member with rfl | rfl <;> simp)
  obtain ⟨previousNode, atPrevious⟩ := atEnd (.inl rfl)
  obtain ⟨lastNode, atLast⟩ := atEnd (.inr rfl)
  have ⟨link, back⟩ : Linked heap.after heap.before previous.1 last.1
      ∧ Linked heap.after heap.before last.1 head := by
    rw [List.map_append, List.append_assoc] at ring
    exact ring.ends
  have beforeHead : headNode.beforeNode = some last.1 := by
    have last := back.2
    rwa [Heap.before, atHead] at last
  have beforeLast : lastNode.beforeNode = some previous.1 := by
    have previous := link.2
    rwa [Heap.before, atLast] at previous
  obtain ⟨kept, -, apart⟩ := List.nodup_append.mp (List.cons_append ▸ ring.distinct)
  have outside : ∀ x ∈ head :: (entries ++ [previous]).map Prod.fst, x ≠ last.1 :=
    fun x member => apart x member last.1 (List.mem_singleton_self _)
  have previousIn : previous.1 ∈ (entries ++ [previous]).map Prod.fst := by simp
  have headPrevious : head ≠ previous.1 := fun same =>
    (List.nodup_cons.mp kept).1 (same ▸ previousIn)
  have differ : headNode.afterNode ≠ some last.1 := by
    have differ := ring.after_head_ne link.2 headPrevious
    rwa [Heap.after, atHead] at differ
  obtain ⟨heap', deleted, freed, after, before, command⟩ :=
    deleterEnd_links atHead atPrevious atLast beforeHead beforeLast differ headPrevious
      (outside previous.1 (List.mem_cons_of_mem head previousIn)).symm
  refine ⟨heap', deleted, freed, ?_, ?_, ?_⟩
  · intro x free
    rw [← Heap.command_eq_none, command, Heap.command_eq_none.mpr free, ite_self]
  · refine ring.removeLast link.2 ?_ ?_ ?_ ?_
    · rw [after, if_neg (outside previous.1 (List.mem_cons_of_mem head previousIn)), if_pos rfl]
    · intro x notPrevious notLast
      rw [after, if_neg notLast, if_neg notPrevious]
    · rw [before, if_neg (outside head List.mem_cons_self), if_pos rfl]
    · intro x notHead notLast
      rw [before, if_neg notLast, if_neg notHead]
  · intro entry member
    have inside : entry.1 ∈ head :: (entries ++ [previous]).map Prod.fst :=
      List.mem_cons_of_mem head (List.mem_map_of_mem member)
    rw [command, if_neg (outside entry.1 inside)]
    exact holds.commands entry (List.mem_append_left [last] member)

/-- install_head keeps a list, and only allocates what malloc gave. -/
theorem installHead_holds {s : State Addr Data} {head : Addr} {entries : List (Addr × Data)}
    (holds : Holds s.heap head entries) {call : Block Addr Data × Data} (fresh : Fresh s call)
    : ∃ next freed,
        installHead head s call = .ok (next, freed)
        ∧ next.tatol = s.tatol + 1
        ∧ (∀ x, x ≠ call.1.address → s.heap x = none → next.heap x = none)
        ∧ (∀ x ∈ freed, next.heap x = none)
        ∧ Holds next.heap head (record s.tatol entries (call.1.address, call.2)) := by
  obtain ⟨heap, linked, kept, holds⟩ := linkHead_holds holds fresh call.2
  by_cases limit : s.tatol + 1 = HOIS_SIZE
  · by_cases none : entries = []
    · subst none
      refine ⟨⟨heap, s.tatol + 1⟩, [], ?_, rfl, kept, fun _ none => ?_, ?_⟩
      · simp only [installHead, linked, ok_bind, if_pos limit,
          deleterEnd_short holds (Nat.le_refl 1)]
        rfl
      · cases none
      · rwa [record, if_neg (fun both => both.2 rfl)]
    · obtain ⟨front, last, rfl⟩ : ∃ front last, entries = front ++ [last] :=
        ⟨_, _, (List.dropLast_append_getLast none).symm⟩
      obtain ⟨start, previous, split⟩ : ∃ start previous,
          (call.1.address, call.2) :: front = start ++ [previous] :=
        ⟨_, _, (List.dropLast_append_getLast (List.cons_ne_nil _ front)).symm⟩
      rw [← List.cons_append, split] at holds
      obtain ⟨heap', deleted, free, still, shorter⟩ := deleterEnd_long holds
      refine ⟨⟨heap', s.tatol + 1⟩, [last.1], ?_, rfl, ?_, ?_, ?_⟩
      · simp only [installHead, linked, ok_bind, if_pos limit, deleted]
        rfl
      · exact fun x notNew before => still x (kept x notNew before)
      · exact fun x member => List.mem_singleton.mp member ▸ free
      · rwa [record, if_pos ⟨limit, none⟩, ← List.cons_append, List.dropLast_concat, split]
  · refine ⟨⟨heap, s.tatol + 1⟩, [], ?_, rfl, kept, fun _ none => ?_, ?_⟩
    · simp only [installHead, linked, ok_bind, if_neg limit]
      rfl
    · cases none
    · rwa [record, if_neg (fun both => limit both.1)]

end At32.Link
