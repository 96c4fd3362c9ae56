import Mathlib.Data.Nat.Bitwise

/-!
# Bits in strings of bytes

A string of bytes is read as one string of bits, the lowest bit of each byte
first. Codes of a fixed width are laid one after the other: bit `b` of code `i`
is the bit at `i * width + b`.
-/

namespace Bits

theorem mod_byte_lt (word : Nat) : word % 256 < 256 :=
  Nat.mod_lt word (by decide)

/-- The bit at a position, false past the end. -/
def bitAt (bytes : List (Fin 256)) (position : Nat) : Bool :=
  match bytes[position / 8]? with
  | some byte => byte.val.testBit (position % 8)
  | none => false

/-- Or a bit, `0` or `1`, into the bit at a position. -/
def orBit (bytes : List (Fin 256)) (position bit : Nat) : List (Fin 256) :=
  bytes.modify (position / 8) fun byte =>
    ⟨(byte.val ||| bit <<< (position % 8)) % 256, mod_byte_lt _⟩

/-- Write a code of `width` bits from a position on, lowest bit first. -/
def write (bytes : List (Fin 256)) (start width code : Nat) : List (Fin 256) :=
  (List.range width).foldl (fun bytes bit =>
    orBit bytes (start + bit) ((code >>> bit) % 2)) bytes

/-- Read a code of `width` bits from a position on, lowest bit first. -/
def read (bytes : List (Fin 256)) (start width : Nat) : Nat :=
  (List.range width).foldl (fun code bit =>
    code ||| ((bitAt bytes (start + bit)).toNat <<< bit)) 0

/-- The string holds the codes, each `width` bits wide, and is blank after the
last. -/
structure Holds (bytes : List (Fin 256)) (width : Nat) (codes : List Nat) : Prop where
  laid : ∀ (index code : Nat), codes[index]? = some code → ∀ bit < width,
    bitAt bytes (index * width + bit) = code.testBit bit
  blank : ∀ position, codes.length * width ≤ position → bitAt bytes position = false

@[simp] theorem length_orBit (bit : Nat) : (orBit bytes position bit).length = bytes.length := by
  rw [orBit, List.length_modify]

theorem write_succ :
    write bytes start (width + 1) code =
      orBit (write bytes start width code) (start + width) ((code >>> width) % 2) := by
  rw [write, List.range_succ, List.foldl_append]
  rfl

@[simp] theorem length_write : (write bytes start width code).length = bytes.length := by
  induction width with
  | zero => rfl
  | succ width ih => rw [write_succ, length_orBit, ih]

theorem testBit_shifted_flag (flag : Bool) (shift index : Nat) :
    (flag.toNat <<< shift).testBit index = (flag && decide (shift = index)) := by
  cases flag with
  | false => rw [Bool.toNat_false, Nat.zero_shiftLeft, Nat.zero_testBit, Bool.false_and]
  | true => rw [Bool.toNat_true, Nat.one_shiftLeft, Nat.testBit_two_pow, Bool.true_and]

theorem testBit_mod_byte (value : Nat) (low : index < 8) :
    (value % 256).testBit index = value.testBit index := by
  refine (Nat.testBit_mod_two_pow value 8 index).trans ?_
  rw [decide_eq_true low, Bool.true_and]

/-- Oring a bit in changes the bit at its position only. -/
theorem bitAt_orBit (inside : position / 8 < bytes.length) (flag : Bool) :
    bitAt (orBit bytes position flag.toNat) other =
      (bitAt bytes other || (flag && decide (position = other))) := by
  unfold bitAt orBit
  rw [List.getElem?_modify]
  by_cases sameByte : position / 8 = other / 8
  · have found : bytes[other / 8]? = some bytes[other / 8] :=
      List.getElem?_eq_getElem (sameByte ▸ inside)
    have sameBit : (position % 8 = other % 8) = (position = other) := by
      apply propext
      omega
    simp only [found, sameByte, if_true, Option.map_eq_map, Option.map_some]
    rw [testBit_mod_byte _ (Nat.mod_lt other (by decide)), Nat.testBit_or, testBit_shifted_flag]
    simp only [sameBit]
  · have apart : decide (position = other) = false := by
      rw [decide_eq_false_iff_not]
      rintro rfl
      exact sameByte rfl
    simp only [sameByte, if_false, apart, Bool.and_false, Bool.or_false]
    cases bytes[other / 8]? with
    | none | some => rfl

/-- A write changes the bits of its field only. -/
theorem bitAt_write (inside : start + width ≤ 8 * bytes.length) :
    bitAt (write bytes start width code) position =
      (bitAt bytes position ||
        (decide (start ≤ position ∧ position < start + width) &&
          code.testBit (position - start))) := by
  induction width with
  | zero =>
    have empty : decide (start ≤ position ∧ position < start + 0) = false := by
      rw [decide_eq_false_iff_not]
      omega
    rw [empty, Bool.false_and, Bool.or_false]
    rfl
  | succ width ih =>
    have earlier := ih (by omega)
    have bit : (code >>> width) % 2 = (code.testBit width).toNat := by
      rw [Nat.toNat_testBit, Nat.shiftRight_eq_div_pow]
    have room : (start + width) / 8 < (write bytes start width code).length := by
      rw [length_write]
      omega
    rw [write_succ, bit, bitAt_orBit room, earlier, Bool.or_assoc]
    congr 1
    rcases Nat.lt_trichotomy position (start + width) with below | rfl | above
    · have apart : decide (start + width = position) = false := by
        rw [decide_eq_false_iff_not]
        omega
      have same : (start ≤ position ∧ position < start + width) =
          (start ≤ position ∧ position < start + (width + 1)) := by
        apply propext
        omega
      simp only [apart, Bool.and_false, Bool.or_false, same]
    · simp
    · have apart : decide (start + width = position) = false := by
        rw [decide_eq_false_iff_not]
        omega
      have outside : decide (start ≤ position ∧ position < start + width) = false := by
        rw [decide_eq_false_iff_not]
        omega
      have stillOutside : decide (start ≤ position ∧ position < start + (width + 1)) = false := by
        rw [decide_eq_false_iff_not]
        omega
      rw [apart, outside, stillOutside]
      simp

/-- The bits of a code that is read are those of the string. -/
theorem testBit_read (bytes : List (Fin 256)) (start width index : Nat) :
    (read bytes start width).testBit index =
      (decide (index < width) && bitAt bytes (start + index)) := by
  unfold read
  induction width with
  | zero =>
    rw [List.range_zero, List.foldl_nil, Nat.zero_testBit]
    simp
  | succ width ih =>
    rw [List.range_succ, List.foldl_append, List.foldl_cons, List.foldl_nil,
      Nat.testBit_or, ih, testBit_shifted_flag]
    rcases Nat.lt_trichotomy index width with below | rfl | above
    · have apart : ¬width = index := by omega
      have still : index < width + 1 := by omega
      simp [below, apart, still]
    · simp
    · have apart : ¬width = index := by omega
      have past : ¬index < width := by omega
      have stillPast : ¬index < width + 1 := by omega
      simp [past, apart, stillPast]

/-- A string of zeros holds no codes. -/
theorem holds_replicate (length width : Nat) : Holds (List.replicate length 0) width [] := by
  constructor
  · intro index code found
    simp at found
  · intro position _
    unfold bitAt
    rw [List.getElem?_replicate]
    split
    · rename_i byte found
      split at found
      · cases found
        exact Nat.zero_testBit _
      · cases found
    · rfl

theorem Holds.read_eq (holds : Holds bytes width codes) (found : codes[index]? = some code)
    (small : code < 2 ^ width) :
    read bytes (index * width) width = code := by
  apply Nat.eq_of_testBit_eq
  intro bit
  rw [testBit_read]
  by_cases inside : bit < width
  · rw [decide_eq_true inside, Bool.true_and, holds.laid index code found bit inside]
  · have high : code.testBit bit = false := by
      apply Nat.testBit_lt_two_pow
      exact small.trans_le (Nat.pow_le_pow_right (by decide) (Nat.not_lt.mp inside))
    rw [decide_eq_false inside, Bool.false_and, high]

/-- The next code is written after those that are held. -/
theorem Holds.write_next (holds : Holds bytes width codes) (code : Nat)
    (room : (codes.length + 1) * width ≤ 8 * bytes.length) :
    Holds (write bytes (codes.length * width) width code) width (codes ++ [code]) := by
  rw [Nat.succ_mul] at room
  constructor
  · intro index other found bit inside
    rw [bitAt_write room]
    rcases Nat.lt_or_ge index codes.length with earlier | last
    · have before : index * width + bit < codes.length * width := by
        calc index * width + bit < index * width + width := Nat.add_lt_add_left inside _
          _ = (index + 1) * width := (Nat.succ_mul index width).symm
          _ ≤ codes.length * width := Nat.mul_le_mul_right width earlier
      rw [List.getElem?_append_left earlier] at found
      rw [holds.laid index other found bit inside, decide_eq_false (by omega),
        Bool.false_and, Bool.or_false]
    · have listed := (List.getElem?_eq_some_iff.mp found).1
      obtain rfl : index = codes.length := by
        rw [List.length_append, List.length_singleton] at listed
        omega
      obtain rfl : code = other := by simpa using found
      rw [holds.blank _ (Nat.le_add_right _ _), Bool.false_or, decide_eq_true (by omega),
        Bool.true_and, Nat.add_sub_cancel_left]
  · intro position past
    rw [List.length_append, List.length_singleton, Nat.succ_mul] at past
    rw [bitAt_write room, holds.blank position (by omega), decide_eq_false (by omega)]
    rfl

/-- A string of a given length is determined by the codes it holds. -/
theorem Holds.eq_of_length (holds : Holds bytes width codes) (others : Holds other width codes)
    (long : bytes.length = other.length) : bytes = other := by
  have bits (position : Nat) : bitAt bytes position = bitAt other position := by
    rcases Nat.lt_or_ge position (codes.length * width) with inside | past
    · have wide : 0 < width := Nat.pos_of_mul_pos_left (Nat.zero_lt_of_lt inside)
      have listed := List.getElem?_eq_getElem (Nat.div_lt_of_lt_mul (Nat.mul_comm _ width ▸ inside))
      have low := Nat.mod_lt position wide
      have here : position = position / width * width + position % width :=
        (Nat.div_add_mod' position width).symm
      rw [here, holds.laid _ _ listed _ low, others.laid _ _ listed _ low]
    · rw [holds.blank position past, others.blank position past]
  apply List.ext_getElem long
  intro place here there
  apply Fin.ext
  apply Nat.eq_of_testBit_eq
  intro bit
  by_cases low : bit < 8
  · have same := bits (8 * place + bit)
    have byte : (8 * place + bit) / 8 = place := by omega
    have offset : (8 * place + bit) % 8 = bit := by omega
    simpa only [bitAt, byte, offset, List.getElem?_eq_getElem here, List.getElem?_eq_getElem there]
      using same
  · have high : 2 ^ 8 ≤ 2 ^ bit := Nat.pow_le_pow_right (by decide) (Nat.not_lt.mp low)
    rw [Nat.testBit_lt_two_pow ((bytes[place]).isLt.trans_le high),
      Nat.testBit_lt_two_pow ((other[place]).isLt.trans_le high)]

end Bits
