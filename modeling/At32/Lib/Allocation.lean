import At32.Lib.ByteMemory
import Mathlib.Logic.Function.Basic

/-! What the callers of an allocator may rely on: the blocks that they hold, and the bytes that
they left in them.
-/

namespace Allocation

open ByteMemory

/-- The lengths that were asked for, at the places that were given, and the bytes in these that
are known.
-/
structure Ledger where
  held : Nat → Option Nat
  content : Nat → Option UInt8

namespace Ledger

def empty : Ledger := { held := fun _ => none, content := fun _ => none }

/-- A block is given, with known bytes in it. -/
def grant (l : Ledger) (place count : Nat) (content : Nat → Option UInt8) : Ledger :=
  {
    held := Function.update l.held place (some count)
    content := fun i =>
      if place ≤ i ∧ i < place + count then content (i - place) else l.content i
  }

/-- A block is given back. -/
def release (l : Ledger) (place : Nat) : Ledger :=
  { l with held := Function.update l.held place none }

/-- Bytes are written. -/
def write (l : Ledger) (place : Nat) (bytes : List UInt8) : Ledger :=
  { l with
    content := fun i => if place ≤ i then (bytes[i - place]? <|> l.content i) else l.content i }

/-- What is known of the bytes from a place on. -/
def known (l : Ledger) (place count : Nat) (k : Nat) : Option UInt8 :=
  if k < count then l.content (place + k) else none

variable (l : Ledger) {place other : Nat} (count : Nat) (content : Nat → Option UInt8)

theorem grant_held_self : (l.grant place count content).held place = some count :=
  Function.update_self _ _ _

theorem grant_held_of_ne (away : other ≠ place)
    : (l.grant place count content).held other = l.held other :=
  Function.update_of_ne away _ _

theorem grant_content (i : Nat)
    : (l.grant place count content).content i
      = if place ≤ i ∧ i < place + count then content (i - place) else l.content i :=
  rfl

theorem write_content (bytes : List UInt8) (i : Nat)
    : (l.write place bytes).content i
      = if place ≤ i then (bytes[i - place]? <|> l.content i) else l.content i :=
  rfl

theorem release_held_self : (l.release place).held place = none := Function.update_self _ _ _

theorem release_held_of_ne (away : other ≠ place) : (l.release place).held other = l.held other :=
  Function.update_of_ne away _ _

end Ledger

/-- The blocks of a memory are those that are held, and are as large as asked for, and what is
known of their bytes is right.
-/
structure Keeps (l : Ledger) (blocks : Nat × Nat → Prop) (m : Memory) : Prop where
  block : ∀ place count, l.held place = some count → ∃ size, count ≤ size ∧ blocks (place, size)
  owner : ∀ block, blocks block → (l.held block.1).isSome
  content : ∀ place count, l.held place = some count → ∀ i, place ≤ i → i < place + count →
    ∀ byte, l.content i = some byte → m i = byte

/-- Two blocks of some are one or apart. -/
def Apart (blocks : Nat × Nat → Prop) : Prop :=
  ∀ left right, blocks left → blocks right → left ≠ right
    → left.1 ≠ right.1
      ∧ (left.1 + left.2 ≤ right.1 ∨ right.1 + right.2 ≤ left.1)

variable {l : Ledger} {blocks blocks' : Nat × Nat → Prop} {m m' : Memory} {place count size : Nat}

/-- Changes apart from the blocks. -/
theorem Keeps.keep (keeps : Keeps l blocks m) (same : ∀ block, blocks' block ↔ blocks block)
    (agree : ∀ block, blocks block → Agree block.1 block.2 m m')
    : Keeps l blocks' m' where
  block place count held := by
    obtain ⟨size, enough, block⟩ := keeps.block place count held
    exact ⟨size, enough, (same _).mpr block⟩
  owner block member := keeps.owner block ((same block).mp member)
  content place count held i low high byte known := by
    obtain ⟨size, enough, block⟩ := keeps.block place count held
    have unchanged := agree _ block i low (Nat.lt_of_lt_of_le high (Nat.add_le_add_left enough _))
    rw [unchanged]
    exact keeps.content place count held i low high byte known

/-- A block that is given is apart from those before. -/
theorem Keeps.grant (keeps : Keeps l blocks m) (apart : Apart blocks')
    (more : ∀ block, blocks' block ↔ blocks block ∨ block = (place, size))
    (enough : count ≤ size)
    (agree : ∀ block, blocks block → Agree block.1 block.2 m m') {content : Nat → Option UInt8}
    (right : ∀ k < count, ∀ byte, content k = some byte → m' (place + k) = byte)
    : Keeps (l.grant place count content) blocks' m' := by
  have new : blocks' (place, size) := (more _).mpr (.inr rfl)
  refine
    {
      block := fun other length held => ?_
      owner := fun block member => ?_
      content := fun other length held i low high byte known => ?_
    }
  · by_cases here : other = place
    · subst here
      rw [l.grant_held_self, Option.some.injEq] at held
      exact ⟨size, by omega, new⟩
    · rw [l.grant_held_of_ne count content here] at held
      obtain ⟨otherSize, large, block⟩ := keeps.block other length held
      exact ⟨otherSize, large, (more _).mpr (.inl block)⟩
  · by_cases here : block.1 = place
    · rw [here, l.grant_held_self]
      rfl
    · rw [l.grant_held_of_ne count content here]
      rcases (more block).mp member with old | rfl
      · exact keeps.owner block old
      · exact absurd rfl here
  · by_cases here : other = place
    · subst here
      rw [l.grant_held_self, Option.some.injEq] at held
      subst held
      rw [l.grant_content, if_pos ⟨low, high⟩] at known
      have value := right (i - other) (by omega) byte known
      rwa [Nat.add_sub_cancel' low] at value
    · rw [l.grant_held_of_ne count content here] at held
      obtain ⟨otherSize, large, block⟩ := keeps.block other length held
      have differ : (other, otherSize) ≠ (place, size) := fun same =>
        here (congrArg Prod.fst same)
      have behind := (apart _ _ ((more _).mpr (.inl block)) new differ).2
      dsimp only at behind
      have outside : ¬(place ≤ i ∧ i < place + count) := by omega
      rw [l.grant_content, if_neg outside] at known
      rw [agree _ block i low (by dsimp only; omega)]
      exact keeps.content other length held i low high byte known

/-- The other blocks stay when one is given back. -/
theorem Keeps.release (keeps : Keeps l blocks m) (apart : Apart blocks)
    (member : blocks (place, size))
    (less : ∀ block, blocks' block ↔ blocks block ∧ block ≠ (place, size))
    (agree : ∀ block, blocks block → block ≠ (place, size) → Agree block.1 block.2 m m')
    : Keeps (l.release place) blocks' m' := by
  have unheld {other length : Nat} (held : (l.release place).held other = some length)
      : other ≠ place ∧ l.held other = some length := by
    by_cases here : other = place
    · rw [here, l.release_held_self] at held
      cases held
    · rw [l.release_held_of_ne here] at held
      exact ⟨here, held⟩
  refine
    {
      block := fun other length held => ?_
      owner := fun block found => ?_
      content := fun other length held i low high byte known => ?_
    }
  · obtain ⟨away, held⟩ := unheld held
    obtain ⟨otherSize, large, block⟩ := keeps.block other length held
    exact ⟨otherSize, large, (less _).mpr ⟨block, fun same => away (congrArg Prod.fst same)⟩⟩
  · obtain ⟨old, differ⟩ := (less block).mp found
    rw [l.release_held_of_ne (apart _ _ old member differ).1]
    exact keeps.owner block old
  · obtain ⟨away, held⟩ := unheld held
    obtain ⟨otherSize, large, block⟩ := keeps.block other length held
    rw [agree _ block (fun same => away (congrArg Prod.fst same)) i low (by dsimp only; omega)]
    exact keeps.content other length held i low high byte known

/-- A write inside a block. -/
theorem Keeps.write (keeps : Keeps l blocks m) (place : Nat) (bytes : List UInt8)
    : Keeps (l.write place bytes) blocks (store m place bytes) where
  block := keeps.block
  owner := keeps.owner
  content other length held i low high byte known := by
    rw [l.write_content] at known
    unfold store
    by_cases behind : place ≤ i
    · rw [if_pos behind] at known ⊢
      cases found : bytes[i - place]? with
      | none =>
          rw [found] at known
          exact keeps.content other length held i low high byte known
      | some written =>
          rw [found] at known
          exact Option.some.inj known
    · rw [if_neg behind] at known ⊢
      exact keeps.content other length held i low high byte known

end Allocation
