import At32.Lib.Buffer
import At32.Lib.CString
import At32.Lib.Numeral

/-! The decimal text of a number, in an array that all calls share. -/

namespace At32.StrFunc

open Buffer CString Numeral

/-- The arrays of itoa. -/
abbrev Str := Vector UInt8 64

/-- A store into an array; none where it is outside. -/
def put (str : Str) (index : Nat) (c : UInt8) : Option Str :=
  if index < 64 then some (str.setIfInBounds index c) else none

/-- The loop over the digits from the lowest one on, for the places that are left of str. -/
def itoaDigits : (left i : Nat) → UInt32 → Str → Nat × Str
  | 0, i, _, str => (i, str)
  | left + 1, i, num, str =>
      if num ≥ 1 then
        itoaDigits left (i + 1) (num / 10) (str.setIfInBounds i (num % 10 + 0x30).toUInt8)
      else
        (i, str)

/-- The loop that turns them round. -/
def itoaReverse (str : Str) : (i j : Nat) → Str → Option (Nat × Str)
  | 0, j, str1 => some (j, str1)
  | i + 1, j, str1 => do
      let c ← str[i]?
      let str1 ← put str1 j c
      itoaReverse str i (j + 1) str1

/-- What str1 is behind a call. -/
def itoa (num : UInt32) (str1 : Str) : Option Str := do
  let (i, str) := itoaDigits 64 0 num (Vector.replicate 64 0)
  let (j, str1) ← itoaReverse str i 0 str1
  let str1 ← put str1 j 0x20
  let str1 ← put str1 (j + 1) 0x20
  put str1 (j + 2) 0

/-- What str1 is at power-on. -/
def hello : Str := store (Vector.replicate 64 0) 0 "hello".toUTF8.toList

/-- Calls one after the other. -/
def calls (nums : List UInt32) : Option Str := nums.foldlM (fun str1 num => itoa num str1) hello

/-- The digits of a text. -/
def digitsOf (text : List UInt8) : List Nat := text.map fun c => (c - 0x30).toNat

/-- The text is the canonical one of a number. -/
structure IsDecimal (num : UInt32) (text : List UInt8) : Prop where
  characters : ∀ c ∈ text, 0x30 ≤ c ∧ c ≤ 0x39
  canonical : Canonical 10 (digitsOf text)
  value : value 10 (digitsOf text) = num.toNat

/-- An array holds a number as a text, followed by two blanks and the terminator. -/
def Formatted (num : UInt32) (str1 : Option Str) : Prop :=
  ∃ held text,
    str1 = some held ∧ text? 0 held.toList = some (text ++ [0x20, 0x20]) ∧ IsDecimal num text

-----------------------------------------------------------------------------------------
-- The loops
-----------------------------------------------------------------------------------------

/-- The character of a digit. -/
def character (digit : Nat) : UInt8 := UInt8.ofNat (digit + 0x30)

theorem character_mod (num : UInt32)
    : (num % 10 + 0x30).toUInt8 = character (num.toNat % 10) := by
  apply UInt8.toNat_inj.mp
  have ten : (10 : UInt32).toNat = 10 := rfl
  have zero : (0x30 : UInt32).toNat = 0x30 := rfl
  rw [character, UInt32.toNat_toUInt8, UInt32.toNat_add, UInt32.toNat_mod, UInt8.toNat_ofNat',
    ten, zero]
  omega

/-- The digits from the lowest one on are stored from a place on; by induction on the places that
are left.
-/
theorem itoaDigits_eq {left : Nat} {num : UInt32}
    (fits : (Nat.digits 10 num.toNat).length ≤ left) (i : Nat) (str : Str)
    : itoaDigits left i num str
      = (i + (Nat.digits 10 num.toNat).length,
        store str i ((Nat.digits 10 num.toNat).map character)) := by
  induction left generalizing num i str with
  | zero =>
      rw [List.length_eq_zero_iff.mp (Nat.le_zero.mp fits)]
      rfl
  | succ left ih =>
      by_cases more : num ≥ 1
      · have positive : 0 < num.toNat := UInt32.le_iff_toNat_le.mp more
        have digits := Nat.digits_def' (by decide : 1 < 10) positive
        have rest : (num / 10).toNat = num.toNat / 10 := UInt32.toNat_div num 10
        rw [digits, List.length_cons] at fits
        rw [itoaDigits, if_pos more, digits, ih (by rw [rest]; exact Nat.le_of_succ_le_succ fits),
          rest, character_mod, List.length_cons, Nat.add_assoc, Nat.add_comm 1]
        rfl
      · have zero : num.toNat = 0 := by
          rw [ge_iff_le, UInt32.le_iff_toNat_le] at more
          exact Nat.lt_one_iff.mp (Nat.not_le.mp more)
        rw [itoaDigits, if_neg more, zero]
        rfl

/-- Turned round, the first digits of str are stored from a place on; by induction on them. -/
theorem itoaReverse_eq {str : Str} {characters : List UInt8}
    (stored : str.toList.take characters.length = characters) {i : Nat}
    (inside : i ≤ characters.length) {j : Nat} (room : j + i ≤ 64) (str1 : Str)
    : itoaReverse str i j str1
      = some (j + i, store str1 j (characters.take i).reverse) := by
  induction i generalizing j str1 with
  | zero => rfl
  | succ i ih =>
      have here : i < characters.length := inside
      have read : str[i]? = some characters[i] := by
        rw [← Vector.getElem?_toList, ← List.getElem?_take_of_lt here, stored,
          List.getElem?_eq_getElem here]
      have below : j < 64 := by omega
      rw [itoaReverse, read, List.take_add_one, List.getElem?_eq_getElem here]
      simp only [put, if_pos below, Option.bind_eq_bind, Option.bind_some]
      rw [ih (Nat.le_of_succ_le inside) (by omega), List.reverse_append, Nat.add_assoc,
        Nat.add_comm 1]
      rfl

-----------------------------------------------------------------------------------------
-- A call
-----------------------------------------------------------------------------------------

/-- The text of a call. -/
def written (num : UInt32) : List UInt8 := (Nat.digits 10 num.toNat).reverse.map character

theorem written_length (num : UInt32) : (written num).length ≤ 10 := by
  rw [written, List.length_map, List.length_reverse, Nat.digits_length_le_iff (by decide)]
  exact Nat.lt_of_lt_of_le num.toNat_lt (by decide)

/-- A character behind the text that is stored from the front. -/
theorem put_store {text : List UInt8} {index : Nat} (behind : index = text.length)
    (inside : index < 64) (str : Str) (c : UInt8)
    : put (store str 0 text) index c = some (store str 0 (text ++ [c])) := by
  rw [put, if_pos inside, store_append, Nat.zero_add, behind]
  rfl

/-- A call stores its text from the front, and two blanks and the terminator behind it. -/
theorem itoa_eq (num : UInt32) (str1 : Str)
    : itoa num str1 = some (store str1 0 (written num ++ [0x20] ++ [0x20] ++ [0])) := by
  have short := written_length num
  have reversed : ((Nat.digits 10 num.toNat).map character).reverse = written num :=
    List.map_reverse.symm
  have length : ((Nat.digits 10 num.toNat).map character).length = (written num).length := by
    rw [← reversed, List.length_reverse]
  have count : (Nat.digits 10 num.toNat).length = (written num).length := by
    rw [← length, List.length_map]
  have taken := Buffer.take_store (Vector.replicate 64 0)
    ((Nat.digits 10 num.toNat).map character) (by omega)
  have turned := @itoaReverse_eq _ _ taken (written num).length (Nat.le_of_eq length.symm) 0
    (by omega) str1
  rw [← length, List.take_length, reversed, length, Nat.zero_add] at turned
  have first := @put_store (written num) _ rfl (by omega) str1 0x20
  have second := @put_store (written num ++ [0x20]) ((written num).length + 1) (by simp)
    (by omega) str1 0x20
  have last := @put_store (written num ++ [0x20] ++ [0x20]) ((written num).length + 2)
    (by simp) (by omega) str1 0
  rw [itoa, itoaDigits_eq (by omega), count, Nat.zero_add]
  simp only [turned, first, second, last, Option.bind_eq_bind, Option.bind_some]

/-- Calls in any number end. -/
theorem calls_isSome (nums : List UInt32) : ∃ str1, calls nums = some str1 := by
  unfold calls
  generalize hello = str1
  induction nums generalizing str1 with
  | nil => exact ⟨str1, rfl⟩
  | cons num rest ih =>
      rw [List.foldlM_cons, itoa_eq]
      exact ih _

-----------------------------------------------------------------------------------------
-- The text
-----------------------------------------------------------------------------------------

theorem character_bounds {digit : Nat} (small : digit < 10)
    : 0x30 ≤ character digit ∧ character digit ≤ 0x39 := by
  have word : (character digit).toNat = digit + 0x30 := by
    rw [character, UInt8.toNat_ofNat']
    omega
  rw [UInt8.le_iff_toNat_le, UInt8.le_iff_toNat_le, word]
  exact ⟨Nat.le_add_left _ _, Nat.add_le_add_right (Nat.le_of_lt_succ small) 0x30⟩

/-- The digits are read back from their characters. -/
theorem digitsOf_written (num : UInt32)
    : digitsOf (written num) = (Nat.digits 10 num.toNat).reverse := by
  have same : ∀ digit ∈ (Nat.digits 10 num.toNat).reverse,
      (character digit - 0x30).toNat = digit := by
    intro digit member
    have small : digit < 10 := Nat.digits_lt_base (by decide) (List.mem_reverse.mp member)
    rw [UInt8.toNat_sub_of_le _ _ (character_bounds small).1, character, UInt8.toNat_ofNat',
      Nat.mod_eq_of_lt (by omega)]
    rfl
  rw [digitsOf, written, List.map_map]
  exact (List.map_congr_left same).trans (List.map_id _)

theorem written_characters (num : UInt32) : ∀ c ∈ written num, 0x30 ≤ c ∧ c ≤ 0x39 := by
  intro c member
  obtain ⟨digit, inside, rfl⟩ := List.mem_map.mp member
  exact character_bounds (Nat.digits_lt_base (by decide) (List.mem_reverse.mp inside))

/-- What a call leaves is read back as its text. -/
theorem text?_written (num : UInt32) (str1 : Str)
    : text? 0 (store str1 0 (written num ++ [0x20] ++ [0x20] ++ [0])).toList
      = some (written num ++ [0x20, 0x20]) := by
  have short := written_length num
  have plain : 0 ∉ written num ++ [0x20, 0x20] := by
    intro member
    rcases List.mem_append.mp member with inside | blank
    · exact absurd (written_characters num 0 inside).1 (by decide)
    · exact absurd blank (by decide)
  have whole : written num ++ [0x20] ++ [0x20] ++ [0] = written num ++ [0x20, 0x20] ++ [0] := by
    simp
  rw [whole, toList_store_front _ _ (by simp; omega), List.append_assoc]
  exact text?_append plain _

/-- The text of a number other than zero is its canonical one. -/
theorem written_isDecimal {num : UInt32} (nonzero : num ≠ 0) : IsDecimal num (written num) := by
  have positive : num.toNat ≠ 0 := fun zero => nonzero (UInt32.toNat_inj.mp zero)
  have digits := digitsOf_written num
  exact {
    characters := written_characters num
    canonical := digits ▸ canonical_digits (by decide) positive
    value := digits ▸ value_digits 10 num.toNat
  }

/-- A call leaves a number so exactly when there is a digit. -/
theorem formatted_iff (num : UInt32) (str1 : Str) : Formatted num (itoa num str1) ↔ num ≠ 0 := by
  rw [itoa_eq]
  constructor
  · rintro ⟨held, text, stored, read, decimal⟩ rfl
    obtain rfl := Option.some.inj stored
    have same := Option.some.inj ((text?_written 0 str1).symm.trans read)
    obtain rfl : [] = text := List.append_cancel_right same
    exact decimal.canonical.nonempty rfl
  · intro nonzero
    exact ⟨_, written num, rfl, text?_written num str1, written_isDecimal nonzero⟩

/-- For every number and all earlier calls: a call leaves the number as its canonical decimal text
exactly when it is not zero.
-/
theorem itoa_formatted_iff (earlier : List UInt32) (num : UInt32)
    : Formatted num (calls (earlier ++ [num])) ↔ num ≠ 0 := by
  obtain ⟨str1, ran⟩ := calls_isSome earlier
  have last : calls (earlier ++ [num]) = itoa num str1 := by
    rw [calls] at ran
    rw [calls, List.foldlM_append, ran, Option.bind_eq_bind, Option.bind_some, List.foldlM_cons]
    exact bind_pure _
  rw [last]
  exact formatted_iff num str1

/-- For zero there is no digit. -/
theorem itoa_unformatted_zero : ¬Formatted 0 (calls [0]) := by
  have first : calls [0] = itoa 0 hello := bind_pure _
  rw [first, formatted_iff]
  exact not_not_intro rfl

end At32.StrFunc
