import Mathlib.Algebra.Group.Nat.Defs
import Mathlib.Data.Nat.ModEq
import Mathlib.Tactic.Common

/-! Addresses at a fixed stride in a 32-bit address space, which may wrap around. -/

namespace Stride

/-- The address after a number of strides, modulo the address space. -/
theorem addr_toNat (base stride : UInt32) (index : Nat)
    : (base + stride * UInt32.ofNat index).toNat
      = (base.toNat + stride.toNat * index) % 2 ^ 32 := by
  rw [UInt32.toNat_add, UInt32.toNat_mul, UInt32.toNat_ofNat', Nat.mul_mod_mod,
    Nat.add_mod_mod]

/-- Strides that end inside the address space do not wrap. -/
theorem addr_toNat_of_lt {base stride : UInt32} {index : Nat}
    (fits : base.toNat + stride.toNat * index < 2 ^ 32)
    : (base + stride * UInt32.ofNat index).toNat = base.toNat + stride.toNat * index := by
  rw [addr_toNat, Nat.mod_eq_of_lt fits]

/-- Addresses at a stride no larger than a bound stay at or above the bound exactly when
the first does and none wraps. Witness: the first address to wrap lies below the stride.
-/
theorem above_iff {base stride bound : UInt32} (small : stride ≤ bound) (count : Nat)
    : (∀ index < count, bound ≤ base + stride * UInt32.ofNat index)
      ↔ count = 0
        ∨ (bound ≤ base ∧ base.toNat + stride.toNat * (count - 1) < 2 ^ 32) := by
  have smallNat := UInt32.le_iff_toNat_le.mp small
  induction count with
  | zero => simp
  | succ count ih =>
      have last : (∀ index < count + 1, bound ≤ base + stride * UInt32.ofNat index)
          ↔ (∀ index < count, bound ≤ base + stride * UInt32.ofNat index)
            ∧ bound ≤ base + stride * UInt32.ofNat count := by
        rw [Nat.forall_lt_succ_right]
      rw [last]
      refine (and_congr_left' ih).trans ?_
      rw [UInt32.le_iff_toNat_le, UInt32.le_iff_toNat_le, addr_toNat]
      have baseBound := base.toNat_lt
      have strideBound := stride.toNat_lt
      cases count with
      | zero =>
          rw [Nat.mul_zero, Nat.add_zero, Nat.mod_eq_of_lt baseBound]
          simp [baseBound]
      | succ count =>
          simp only [Nat.add_sub_cancel, Nat.succ_ne_zero, false_or, Nat.mul_succ]
          constructor
          · intro all
            obtain ⟨⟨above, fits⟩, next⟩ := all
            refine ⟨above, ?_⟩
            by_contra wraps
            have wrapped
                : (base.toNat + (stride.toNat * count + stride.toNat)) % 2 ^ 32
                  = base.toNat + (stride.toNat * count + stride.toNat) - 2 ^ 32 := by
              rw [Nat.mod_eq_sub_mod (by omega), Nat.mod_eq_of_lt (by omega)]
            omega
          · intro both
            obtain ⟨above, fits⟩ := both
            rw [Nat.mod_eq_of_lt fits]
            omega

-----------------------------------------------------------------------------------------
-- The blocks of one size that a range of places meets
-----------------------------------------------------------------------------------------

/-- A range meets the blocks from that of its first place to that of its last place. -/
theorem meets_iff {size start count block : Nat} (positive : 0 < size) (some : 0 < count)
    : (∃ place, start ≤ place ∧ place < start + count ∧ place / size = block)
      ↔ start / size ≤ block ∧ block ≤ (start + count - 1) / size := by
  constructor
  · intro met
    obtain ⟨place, low, high, rfl⟩ := met
    exact ⟨Nat.div_le_div_right low, Nat.div_le_div_right (by omega)⟩
  · intro between
    obtain ⟨low, high⟩ := between
    -- the first place of the range or of the block, whichever comes later
    have below := (Nat.le_div_iff_mul_le positive).mp high
    have above := (Nat.div_lt_iff_lt_mul positive).mp (Nat.lt_succ_of_le low)
    rw [Nat.succ_mul] at above
    by_cases inside : start ≤ block * size
    · exact ⟨block * size, inside, by omega, Nat.mul_div_cancel _ positive⟩
    · refine ⟨start, Nat.le_refl _, by omega, Nat.div_eq_of_lt_le (by omega) ?_⟩
      rw [Nat.succ_mul]
      exact above

/-- The block of the last place, counted from that of the first one: the blocks that the
length spans, and one more when the offsets of both ends make up a block.
-/
theorem lastBlock {size start count : Nat} (positive : 0 < size) (some : 0 < count)
    : (start + count - 1) / size
      = start / size + (count - 1) / size
        + if start % size + (count - 1) % size < size then 0 else 1 := by
  have last : start + count - 1 = start + (count - 1) := by omega
  rw [last, Nat.add_div positive]
  congr 1
  split <;> split <;> omega

/-- Blocks one behind the other from the first are those that the range meets exactly when they
end with the block of its last place.
-/
theorem covers_iff {size start count num : Nat} (positive : 0 < size) (some : 0 < count)
    : (∀ block,
        block ∈ (List.range num).map (fun i => start / size + i)
        ↔ ∃ place, start ≤ place ∧ place < start + count ∧ place / size = block)
      ↔ start / size + num = (start + count - 1) / size + 1 := by
  have ordered : start / size ≤ (start + count - 1) / size := Nat.div_le_div_right (by omega)
  have member (block : Nat)
      : block ∈ (List.range num).map (fun i => start / size + i)
        ↔ start / size ≤ block ∧ block < start / size + num := by
    simp only [List.mem_map, List.mem_range]
    constructor
    · rintro ⟨i, within, rfl⟩
      omega
    · rintro ⟨low, high⟩
      exact ⟨block - start / size, by omega, by omega⟩
  simp only [member, meets_iff positive some]
  constructor
  · intro exact
    have last := (exact ((start + count - 1) / size)).mpr ⟨ordered, Nat.le_refl _⟩
    have behind := (exact ((start + count - 1) / size + 1)).mp
    omega
  · intro ends block
    omega

end Stride
