import At32.Shell.Link
import Mathlib.Data.List.Induction

/-! The history of the shell over any number of commands: the list stays a ring of the latest
ones, and for how many of them it has the length that the limit asks for.
-/

namespace At32.Link

open LinkedRing Transducer

variable {Addr Data : Type} [DecidableEq Addr]

/-- The list at a head is intact, for the commands put in so far: all that links lead to is
allocated and linked both ways on both sides, both walks visit the same nodes, and the commands
at them are the latest ones, newest first.
-/
structure Intact (heap : Heap Addr Data) (head : Addr) (history : List Data)
    (nodes : List Addr)
    : Prop where
  wellFormed
    : ∀ x,
        Reachable heap.after heap.before head x
        → (∃ y, heap.after x = some y ∧ heap.before y = some x)
          ∧ ∃ y, heap.before x = some y ∧ heap.after y = some x
  allocated : ∀ x, Reachable heap.after heap.before head x → ∃ node, heap x = some node
  forward : ∀ fuel, nodes.length < fuel → walk heap.after head fuel head = some nodes
  backward : ∀ fuel, nodes.length < fuel → walk heap.before head fuel head = some nodes.reverse
  newestFirst : nodes.map heap.command <+: history.reverse.map some

/-- The list at a head is as long as HOIS_SIZE asks for: not longer, and with the latest
commands, all of them or as many as are less than HOIS_SIZE.
-/
def Bounded (heap : Heap Addr Data) (head : Addr) (history : List Data) : Prop :=
  ∃ nodes,
    (∀ fuel, nodes.length < fuel → walk heap.after head fuel head = some nodes)
    ∧ nodes.length ≤ HOIS_SIZE.toNat
    ∧ (history.reverse.take (min history.length (HOIS_SIZE.toNat - 1))).map some
      <+: nodes.map heap.command

/-- What a call puts in: the address that malloc gives, and the command. -/
def entryOf (call : Block Addr Data × Data) : Addr × Data := (call.1.address, call.2)

/-- The entries after calls, for a counter before them. -/
def recordAll (tatol : UInt32) (calls : List (Addr × Data)) : UInt32 × List (Addr × Data) :=
  calls.foldl (fun s entry => (s.1 + 1, record s.1 s.2 entry)) (tatol, [])

-----------------------------------------------------------------------------------------
-- Runs
-----------------------------------------------------------------------------------------

omit [DecidableEq Addr] in
theorem recordAll_append (tatol : UInt32) (calls : List (Addr × Data)) (entry : Addr × Data)
    : recordAll tatol (calls ++ [entry])
      = ((recordAll tatol calls).1 + 1,
        record (recordAll tatol calls).1 (recordAll tatol calls).2 entry) := by
  rw [recordAll, List.foldl_append]
  rfl

/-- Calls with memory that is not in use keep the list; by induction on the calls from the last
one.
-/
theorem run_holds {heap : Heap Addr Data} {head : Addr} (holds : Holds heap head [])
    {tatol : UInt32} {calls : List (Block Addr Data × Data)}
    (fresh : StepsMeet (installHead head) Fresh ⟨heap, tatol⟩ calls)
    : ∃ last freed,
        run (installHead head) ⟨heap, tatol⟩ calls = .ok (last, freed)
        ∧ last.tatol = (recordAll tatol (calls.map entryOf)).1
        ∧ Holds last.heap head (recordAll tatol (calls.map entryOf)).2 := by
  induction calls using List.reverseRecOn with
  | nil => exact ⟨_, _, rfl, rfl, holds⟩
  | append_singleton calls call ih =>
      have prefixes := stepsMeet_iff_prefixes.mp fresh
      obtain ⟨middle, freed, ran, counter, kept⟩ :=
        ih (stepsMeet_iff_prefixes.mpr fun start input rest split =>
          prefixes start input (rest ++ [call]) (by rw [split, List.append_assoc]; rfl))
      obtain ⟨last, more, taken, next, -, -, held⟩ :=
        installHead_holds kept (prefixes calls call [] rfl middle freed ran)
      refine ⟨last, freed ++ more, run_append ran (by rw [run_singleton, taken]), ?_, ?_⟩
      · rw [List.map_append, List.map_singleton, recordAll_append, next, counter]
      · rw [List.map_append, List.map_singleton, recordAll_append, ← counter]
        exact held

omit [DecidableEq Addr] in
/-- The entries are the latest ones; by induction on the calls from the last one. -/
theorem recordAll_reverse (tatol : UInt32) (calls : List (Addr × Data))
    : (recordAll tatol calls).2 <+: calls.reverse := by
  induction calls using List.reverseRecOn with
  | nil => exact List.prefix_rfl
  | append_singleton calls call ih =>
      have whole : call :: (recordAll tatol calls).2 <+: (calls ++ [call]).reverse := by
        rw [List.reverse_append, List.reverse_singleton, List.singleton_append]
        exact List.cons_prefix_cons.mpr ⟨rfl, ih⟩
      rw [recordAll_append, record]
      split
      · exact (List.dropLast_prefix _).trans whole
      · exact whole

omit [DecidableEq Addr] in
/-- The commands of the entries are the latest ones. -/
theorem recordAll_latest (tatol : UInt32) (calls : List (Block Addr Data × Data))
    : (recordAll tatol (calls.map entryOf)).2.map Prod.snd <+: (calls.map Prod.snd).reverse := by
  have latest := (recordAll_reverse tatol (calls.map entryOf)).map Prod.snd
  rwa [List.map_reverse, List.map_map] at latest

omit [DecidableEq Addr] in
/-- The commands at the nodes of a list. -/
theorem Holds.map_command {heap : Heap Addr Data} {head : Addr} {entries : List (Addr × Data)}
    (holds : Holds heap head entries)
    : (entries.map Prod.fst).map heap.command = (entries.map Prod.snd).map some := by
  rw [List.map_map, List.map_map]
  exact List.map_congr_left holds.commands

theorem Holds.intact {heap : Heap Addr Data} {head : Addr} {entries : List (Addr × Data)}
    (holds : Holds heap head entries) {history : List Data}
    (latest : entries.map Prod.snd <+: history.reverse)
    : Intact heap head history (entries.map Prod.fst) where
  wellFormed x way := by
    obtain ⟨y, _, next⟩ := holds.ring.next (holds.ring.reachable way)
    obtain ⟨z, _, previous⟩ := holds.ring.previous (holds.ring.reachable way)
    exact ⟨⟨y, next⟩, z, previous.2, previous.1⟩
  allocated x way := holds.allocated (holds.ring.reachable way)
  forward fuel enough := holds.ring.walk_after enough
  backward fuel enough := holds.ring.walk_before enough
  newestFirst := by
    rw [holds.map_command]
    exact latest.map some

/-- Every list of calls, on a list that create_head made and with memory that is not in use,
leaves the list intact.
-/
theorem installHead_intact {block : Block Addr Data} {heap heap' : Heap Addr Data}
    (created : createHead block heap = .ok heap') (tatol : UInt32)
    (calls : List (Block Addr Data × Data))
    (fresh : StepsMeet (installHead block.address) Fresh ⟨heap', tatol⟩ calls)
    : ∃ last freed nodes,
        run (installHead block.address) ⟨heap', tatol⟩ calls = .ok (last, freed)
        ∧ Intact last.heap block.address (calls.map Prod.snd) nodes := by
  obtain ⟨made, same, holds⟩ := createHead_holds block heap
  obtain rfl := Except.ok.inj (created.symm.trans same)
  obtain ⟨last, freed, ran, -, held⟩ := run_holds holds fresh
  exact ⟨last, freed, _, ran, held.intact (recordAll_latest tatol calls)⟩

instance (s : State Addr Data) (call : Block Addr Data × Data) : Decidable (Fresh s call) :=
  inferInstanceAs (Decidable (s.heap call.1.address = none))

/-- A block of malloc that holds what it happens to. -/
def blockAt (address : Nat) : Block Nat Nat :=
  { address, content := { historyCommand := 0xa5, beforeNode := none, afterNode := some 7 } }

/-- The heap of an empty list at 0. -/
def emptyList : Heap Nat Nat :=
  Function.update (Heap.malloc (fun _ => none) (blockAt 0)) 0
    (some { historyCommand := 0xa5, beforeNode := some 0, afterNode := some 0 })

theorem createHead_emptyList
    : createHead (blockAt 0) (fun _ => none) = .ok emptyList :=
  rfl

theorem installHead_intact_reused
    : ∃ last freed nodes,
        run (installHead 0) ⟨emptyList, 98⟩ [(blockAt 1, 10), (blockAt 2, 20), (blockAt 1, 30)]
          = .ok (last, freed)
        ∧ Intact last.heap 0 [10, 20, 30] nodes :=
  @installHead_intact Nat Nat _ (blockAt 0) (fun _ => none) emptyList createHead_emptyList 98
    [(blockAt 1, 10), (blockAt 2, 20), (blockAt 1, 30)] (by decide)

-----------------------------------------------------------------------------------------
-- The length of the list
-----------------------------------------------------------------------------------------

/-- How many calls a list takes while it is as long as HOIS_SIZE asks for, for a counter before
them: the one node that the counter ever takes out must be neither missing nor late.
-/
def limit (tatol : UInt32) : Nat :=
  if tatol = 0 ∨ tatol = 0xffffffff then 101
  else if tatol < 99 then 99 - tatol.toNat
  else 100

omit [DecidableEq Addr] in
theorem recordAll_counter (tatol : UInt32) (calls : List (Addr × Data))
    : (recordAll tatol calls).1 = tatol + UInt32.ofNat calls.length := by
  induction calls using List.reverseRecOn with
  | nil => exact (UInt32.add_zero tatol).symm
  | append_singleton calls call ih =>
      rw [recordAll_append, ih, List.length_append, List.length_singleton, UInt32.ofNat_add,
        UInt32.add_assoc]
      rfl

omit [DecidableEq Addr] in
theorem record_length (tatol : UInt32) (entries : List (Addr × Data)) (entry : Addr × Data)
    : (record tatol entries entry).length
      = if tatol + 1 = HOIS_SIZE ∧ entries ≠ [] then entries.length else entries.length + 1 := by
  rw [record]
  split
  · rw [List.length_dropLast, List.length_cons, Nat.add_sub_cancel]
  · rw [List.length_cons]

/-- The length of the list after so many calls, while the counter is at its limit once at most. -/
def sizeAfter (tatol : UInt32) (taken : Nat) : Nat :=
  if (100 ≤ tatol.toNat + taken ∧ tatol.toNat ≤ 98) ∨ 0x100000064 ≤ tatol.toNat + taken then
    taken - 1
  else
    taken

/-- When the counter is at its limit behind so many calls. -/
theorem counter_limit (tatol : UInt32) {taken : Nat} (few : taken ≤ 101)
    : tatol + UInt32.ofNat taken + 1 = HOIS_SIZE
      ↔ tatol.toNat + taken + 1 = 100 ∨ tatol.toNat + taken + 1 = 0x100000064 := by
  have small : taken % 0x100000000 = taken := Nat.mod_eq_of_lt (by omega)
  have counted : (tatol + UInt32.ofNat taken + 1).toNat
      = ((tatol.toNat + taken) % 0x100000000 + 1) % 0x100000000 := by
    rw [UInt32.toNat_add, UInt32.toNat_add, show (UInt32.ofNat taken).toNat = taken from small]
    rfl
  rw [← UInt32.toNat_inj, counted]
  have bounded := tatol.toNat_lt
  have : HOIS_SIZE.toNat = 100 := rfl
  omega

omit [DecidableEq Addr] in
/-- The length of the list, by induction on the calls from the last one. -/
theorem recordAll_length (tatol : UInt32) {calls : List (Addr × Data)}
    (few : calls.length ≤ 102)
    : (recordAll tatol calls).2.length = sizeAfter tatol calls.length := by
  have bounded := tatol.toNat_lt
  induction calls using List.reverseRecOn with
  | nil =>
      have none : ¬((100 ≤ tatol.toNat + 0 ∧ tatol.toNat ≤ 98)
          ∨ 0x100000064 ≤ tatol.toNat + 0) := by
        omega
      exact (if_neg none).symm
  | append_singleton calls call ih =>
      rw [List.length_append, List.length_singleton] at few ⊢
      have before := ih (by omega)
      have nonempty : (recordAll tatol calls).2 ≠ [] ↔ (recordAll tatol calls).2.length ≠ 0 := by
        rw [Ne, Ne, List.length_eq_zero_iff]
      rw [recordAll_append, record_length, recordAll_counter]
      simp only [nonempty, before, counter_limit tatol (Nat.le_of_succ_le_succ few), sizeAfter]
      split_ifs <;> omega

/-- The list has as many commands as it shall exactly for so many calls as the limit; one more
is either one node too many or one too few.
-/
theorem limit_exact (tatol : UInt32) {taken : Nat} (few : taken ≤ limit tatol + 1)
    : sizeAfter tatol taken ≤ 100 ∧ min taken 99 ≤ sizeAfter tatol taken
      ↔ taken ≤ limit tatol := by
  have bounded := tatol.toNat_lt
  have zero : tatol = 0 ↔ tatol.toNat = 0 := by rw [← UInt32.toNat_inj]; rfl
  have last : tatol = 0xffffffff ↔ tatol.toNat = 0xffffffff := by rw [← UInt32.toNat_inj]; rfl
  have low : tatol < 99 ↔ tatol.toNat < 99 := UInt32.lt_iff_toNat_lt
  simp only [limit, sizeAfter, zero, last, low] at few ⊢
  split_ifs at few ⊢ <;> omega

/-- A list of the latest commands is as long as it shall exactly if its length is. -/
theorem Holds.bounded_iff {heap : Heap Addr Data} {head : Addr} {entries : List (Addr × Data)}
    (holds : Holds heap head entries) {history : List Data}
    (latest : entries.map Prod.snd <+: history.reverse)
    : Bounded heap head history
      ↔ entries.length ≤ 100 ∧ min history.length 99 ≤ entries.length := by
  have size : (history.reverse.take (min history.length 99)).length = min history.length 99 := by
    rw [List.length_take, List.length_reverse, Nat.min_right_comm, Nat.min_self]
  constructor
  · rintro ⟨nodes, walks, short, recent⟩
    have both := (walks (nodes.length + entries.length + 1) (by omega)).symm.trans
      (holds.ring.walk_after (by rw [List.length_map]; omega))
    have same : nodes.length = entries.length := by
      rw [Option.some.inj both, List.length_map]
    refine ⟨same ▸ short, ?_⟩
    have covers := recent.length_le
    rw [List.length_map, List.length_map, same] at covers
    exact size ▸ covers
  · rintro ⟨short, covers⟩
    refine ⟨entries.map Prod.fst, fun fuel enough => holds.ring.walk_after enough, ?_, ?_⟩
    · rwa [List.length_map]
    · rw [holds.map_command]
      refine List.IsPrefix.map some ?_
      refine List.prefix_of_prefix_length_le (List.take_prefix _ _) latest ?_
      rw [List.length_map]
      exact Nat.le_trans (Nat.le_of_eq size) covers

/-- A run of so many calls leaves the list as long as it shall exactly if its length then is. -/
theorem run_bounded_iff {heap : Heap Addr Data} {head : Addr} (holds : Holds heap head [])
    {tatol : UInt32} {calls : List (Block Addr Data × Data)}
    (fresh : StepsMeet (installHead head) Fresh ⟨heap, tatol⟩ calls)
    {last : State Addr Data} {freed : List Addr}
    (ran : run (installHead head) ⟨heap, tatol⟩ calls = .ok (last, freed))
    (few : calls.length ≤ limit tatol + 1)
    : Bounded last.heap head (calls.map Prod.snd) ↔ calls.length ≤ limit tatol := by
  obtain ⟨_, _, same, -, held⟩ := run_holds holds fresh
  obtain ⟨rfl, rfl⟩ := Prod.mk.inj (Except.ok.inj (ran.symm.trans same))
  rw [held.bounded_iff (recordAll_latest tatol calls), recordAll_length, List.length_map,
    List.length_map]
  · exact limit_exact tatol few
  · rw [List.length_map]
    refine Nat.le_trans few (Nat.succ_le_succ ?_)
    unfold limit
    split_ifs <;> omega

/-- From a list that create_head made on, the list is always as long as HOIS_SIZE asks for
exactly if the calls are as many as the limit at most.
-/
theorem installHead_bounded_iff {block : Block Addr Data} {heap heap' : Heap Addr Data}
    (created : createHead block heap = .ok heap') (tatol : UInt32)
    (calls : List (Block Addr Data × Data))
    (fresh : StepsMeet (installHead block.address) Fresh ⟨heap', tatol⟩ calls)
    : (∀ before after,
        calls = before ++ after
        → ∀ last freed,
            run (installHead block.address) ⟨heap', tatol⟩ before = .ok (last, freed)
            → Bounded last.heap block.address (before.map Prod.snd))
      ↔ calls.length ≤ limit tatol := by
  obtain ⟨made, same, holds⟩ := createHead_holds block heap
  obtain rfl := Except.ok.inj (created.symm.trans same)
  have part {before after : List (Block Addr Data × Data)} (split : calls = before ++ after)
      : StepsMeet (installHead block.address) Fresh ⟨heap', tatol⟩ before :=
    stepsMeet_iff_prefixes.mpr fun start input rest inner =>
      stepsMeet_iff_prefixes.mp fresh start input (rest ++ after)
        (by rw [split, inner, List.append_assoc]; rfl)
  constructor
  · intro every
    by_contra many
    -- the first call too many
    have split := (List.take_append_drop (limit tatol + 1) calls).symm
    have size : (calls.take (limit tatol + 1)).length = limit tatol + 1 :=
      List.length_take_of_le (by omega)
    obtain ⟨last, freed, ran, -⟩ := run_holds holds (part split)
    have bounded := (run_bounded_iff holds (part split) ran (by omega)).mp
      (every _ _ split last freed ran)
    omega
  · intro few before after split last freed ran
    have fewer : before.length ≤ calls.length := by
      rw [split, List.length_append]
      exact Nat.le_add_right _ _
    exact (run_bounded_iff holds (part split) ran (by omega)).mpr (by omega)

/-- Memory at different addresses is not in use when it is given; by induction on the calls. -/
theorem fresh_of_distinct {s : State Addr Data} {head : Addr} {entries : List (Addr × Data)}
    (holds : Holds s.heap head entries) {calls : List (Block Addr Data × Data)}
    (free : ∀ call ∈ calls, s.heap call.1.address = none)
    (distinct : (calls.map fun call => call.1.address).Nodup)
    : StepsMeet (installHead head) Fresh s calls := by
  induction calls generalizing s entries with
  | nil => trivial
  | cons call rest ih =>
      obtain ⟨others, distinct⟩ := List.nodup_cons.mp distinct
      have fresh : Fresh s call := free call List.mem_cons_self
      refine ⟨fresh, fun next freed taken => ?_⟩
      obtain ⟨_, _, same, -, kept, -, held⟩ := installHead_holds holds fresh
      obtain ⟨rfl, rfl⟩ := Prod.mk.inj (Except.ok.inj (taken.symm.trans same))
      refine ih held (fun other later => ?_) distinct
      refine kept _ (fun again => others ?_) (free other (List.mem_cons_of_mem call later))
      exact List.mem_map.mpr ⟨other, later, again⟩

/-- Calls for one command after the other, each with memory of its own. -/
def callsUpTo (count : Nat) : List (Block Nat Nat × Nat) :=
  (List.range count).map fun i => (blockAt (i + 1), i)

theorem emptyList_holds : Holds emptyList 0 [] := by
  obtain ⟨made, same, holds⟩ := createHead_holds (blockAt 0) (fun _ => none)
  obtain rfl := Except.ok.inj (createHead_emptyList.symm.trans same)
  exact holds

theorem callsUpTo_fresh (tatol : UInt32) (count : Nat)
    : StepsMeet (installHead 0) Fresh ⟨emptyList, tatol⟩ (callsUpTo count) := by
  refine fresh_of_distinct emptyList_holds ?_ ?_
  · intro call member
    obtain ⟨i, _, rfl⟩ := List.mem_map.mp member
    simp [emptyList, Heap.malloc, blockAt]
  · rw [callsUpTo, List.map_map]
    exact List.nodup_range.map Nat.succ_injective

/-- From a count of 0, as many calls as the limit allows. -/
theorem installHead_bounded_iff_limit
    : (callsUpTo 101).length = limit 0
      ∧ ∀ before after,
        callsUpTo 101 = before ++ after
        → ∀ last freed,
            run (installHead 0) ⟨emptyList, 0⟩ before = .ok (last, freed)
            → Bounded last.heap 0 (before.map Prod.snd) := by
  have size : (callsUpTo 101).length = limit 0 := by
    rw [callsUpTo, List.length_map, List.length_range]
    rfl
  exact ⟨size, (@installHead_bounded_iff Nat Nat _ (blockAt 0) (fun _ => none) emptyList
    createHead_emptyList 0 (callsUpTo 101) (callsUpTo_fresh 0 101)).mpr (Nat.le_of_eq size)⟩

/-- After 102 commands from power-on the list has a node too many. -/
theorem installHead_unbounded
    : ∃ last freed,
        run (installHead 0) ⟨emptyList, 0⟩ (callsUpTo 102) = .ok (last, freed)
        ∧ ¬Bounded last.heap 0 ((callsUpTo 102).map Prod.snd) := by
  have fresh := callsUpTo_fresh 0 102
  obtain ⟨last, freed, ran, -⟩ := run_holds emptyList_holds fresh
  have size : (callsUpTo 102).length = 102 := by
    rw [callsUpTo, List.length_map, List.length_range]
  have exact := run_bounded_iff emptyList_holds fresh ran (by rw [size]; decide)
  refine ⟨last, freed, ran, fun bounded => ?_⟩
  have few := exact.mp bounded
  rw [size] at few
  exact absurd few (by decide)

end At32.Link
