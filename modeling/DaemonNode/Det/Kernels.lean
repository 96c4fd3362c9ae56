import DaemonNode.Lib.Lists
import DaemonNode.Proto.Bytes

/-!
# Deterministic kernels

The kernels a streamed ingest folds with: elementwise sums in index order, the
scatter of sparse rows into a dense window, and the two packed codecs. They
check the shapes they are given, and the checks are what is modelled here in
full. The floating-point operations themselves are parameters: nothing below
depends on what a sum or a product rounds to.
-/

namespace DaemonNode

/-- The floating-point operations, over the binary32 and binary64 numbers. -/
structure Floats (F32 F64 : Type) where
  ofNat : Nat → F32
  (add sub mul div : F32 → F32 → F32)
  sqrt : F32 → F32
  /-- The number with the given binary16 bits. -/
  ofHalfBits : Nat → F32
  toLe : F32 → List Byte
  ofLe : List Byte → F32
  widen : F32 → F64
  narrow : F64 → F32
  ofNat64 : Nat → F64
  (half64 infinity64 : F64)
  (add64 mul64 div64 : F64 → F64 → F64)
  neg64 : F64 → F64
  /-- The IEEE comparison `<`, false on a NaN. -/
  lt64 : F64 → F64 → Bool
  /-- The total order of `total_cmp`. -/
  totalLe64 : F64 → F64 → Bool

/-- A refusal of a kernel. -/
inductive DetError
  | shapeMismatch (expected got : Nat)
  | notDivisible (len divisor : Nat)
  | indexOutOfRange (index bound : Nat)
  | unsupportedBits (bits : Nat)
  deriving DecidableEq, Repr

/-- The debug text of a refusal. -/
def DetError.debug : DetError → String
  | shapeMismatch expected got =>
    "ShapeMismatch \x7b expected: " ++ toString expected ++ ", got: " ++ toString got ++ " \x7d"
  | notDivisible len divisor =>
    "NotDivisible \x7b len: " ++ toString len ++ ", divisor: " ++ toString divisor ++ " \x7d"
  | indexOutOfRange index bound =>
    "IndexOutOfRange \x7b index: " ++ toString index ++ ", bound: " ++ toString bound ++ " \x7d"
  | unsupportedBits bits => "UnsupportedBits \x7b bits: " ++ toString bits ++ " \x7d"

section Elementwise

variable (floats : Floats F32 F64)

/-- Add the squares of the values to the carry, left to right. -/
def detSumsqInto (acc : F32) (values : List F32) : F32 :=
  values.foldl (fun acc value => floats.add acc (floats.mul value value)) acc

/-- `y + alpha * x`, element by element. -/
def detAxpy (y : List F32) (alpha : F64) (x : List F32) : Except DetError (List F32) :=
  if y.length ≠ x.length then .error (.shapeMismatch y.length x.length)
  else
    let scale := floats.narrow alpha
    .ok (List.zipWith (fun into value => floats.add into (floats.mul scale value)) y x)

/-- `x * alpha`, element by element. -/
def detScale (x : List F32) (alpha : F64) : List F32 :=
  let scale := floats.narrow alpha
  x.map fun value => floats.mul value scale

/-- One entry of a sparse row added into its chunk. The position is inside the
payload, so neither read is out of bounds. -/
def scatterEntry (values : List F32) (indices : List Nat) (chunk k c : Nat)
    (acc : List F32) (j : Nat) : Except DetError (List F32) :=
  let position := c * k + j
  let index := indices.getD position 0
  if chunk ≤ index then .error (.indexOutOfRange index chunk)
  else
    .ok (acc.modify (c * chunk + index) fun sum =>
      floats.add sum (values.getD position (floats.ofNat 0)))

/-- The entries of one chunk, in order. -/
def scatterChunk (values : List F32) (indices : List Nat) (chunk k : Nat)
    (acc : List F32) (c : Nat) : Except DetError (List F32) :=
  (List.range k).foldlM (scatterEntry floats values indices chunk k c) acc

/-- Add a sparse payload into a dense window, chunk by chunk. -/
def detChunkScatterAdd (acc values : List F32) (indices : List Nat) (chunk : Nat) :
    Except DetError (List F32) :=
  if chunk = 0 ∨ acc.length % chunk ≠ 0 then .error (.notDivisible acc.length chunk)
  else if values.length ≠ indices.length then .error (.shapeMismatch values.length indices.length)
  else
    let chunks := acc.length / chunk
    if chunks = 0 then
      if values = [] then .ok acc else .error (.shapeMismatch 0 values.length)
    else if values.length % chunks ≠ 0 then .error (.notDivisible values.length chunks)
    else
      (List.range chunks).foldlM
        (scatterChunk floats values indices chunk (values.length / chunks)) acc

end Elementwise

/-- An unsigned code of `bits` bits from a bit position on, lowest bit first. -/
def readBitsLsb (bytes : List Byte) (bitPos bits : Nat) : Nat :=
  (List.range bits).foldl (fun code bit =>
    let position := bitPos + bit
    let read := ((bytes.getD (position / 8) 0).val >>> (position % 8)) % 2
    code ||| (read <<< bit)) 0

/-- The byte stride of one packed row of values. -/
def absmaxRowBytes (chunk bits : Nat) : Nat :=
  2 + (chunk * bits + 7) / 8

/-- One packed row: a binary16 scale and a code for each value. -/
def unpackRow (floats : Floats F32 F64) (row : List Byte) (chunk bits : Nat) : List F32 :=
  let absmax := floats.ofHalfBits (fromLeBytes (row.take 2))
  let codes := row.drop 2
  (List.range chunk).map fun entry =>
    let code := readBitsLsb codes (entry * bits) bits
    let level := floats.sub
      (floats.mul (floats.div (floats.ofNat code) (floats.ofNat (2 ^ bits - 1)))
        (floats.ofNat 2)) (floats.ofNat 1)
    floats.mul absmax level

/-- Decode packed value rows. -/
def detAbsmaxUnpack (floats : Floats F32 F64) (packed : List Byte) (chunk bits : Nat) :
    Except DetError (List F32) :=
  if bits ∉ [1, 2, 4, 8] then .error (.unsupportedBits bits)
  else if chunk = 0 then .error (.notDivisible packed.length 0)
  else
    let stride := absmaxRowBytes chunk bits
    if packed.length % stride ≠ 0 then .error (.notDivisible packed.length stride)
    else
      .ok ((List.range (packed.length / stride)).flatMap fun row =>
        unpackRow floats ((packed.drop (row * stride)).take stride) chunk bits)

/-- The width of one index into a chunk. -/
def indexBits (chunk : Nat) : Except DetError Nat :=
  if chunk = 0 then .error (.notDivisible 0 0)
  else .ok (if chunk - 1 = 0 then 0 else (chunk - 1).log2 + 1)

/-- The packed length of a number of indices. -/
def packedIndexLen (count chunk : Nat) : Except DetError Nat := do
  let bits ← indexBits chunk
  return (count * bits + 7) / 8

/-- One packed index, which has to lie in the chunk. -/
def unpackIndex (bytes : List Byte) (chunk bits position : Nat) : Except DetError Nat :=
  let index := readBitsLsb bytes (position * bits) bits
  if chunk ≤ index then .error (.indexOutOfRange index chunk) else .ok index

/-- Decode packed indices. -/
def unpackChunkIndices (bytes : List Byte) (chunk count : Nat) :
    Except DetError (List Nat) := do
  let bits ← indexBits chunk
  let need ← packedIndexLen count chunk
  if bytes.length ≠ need then .error (.shapeMismatch need bytes.length)
  else (List.range count).mapM (unpackIndex bytes chunk bits)

/-- A payload of `k` entries a chunk, each inside its chunk, is scattered. -/
theorem detChunkScatterAdd_ok (floats : Floats F32 F64) (positive : 0 < chunk)
    (shape : acc.length = rows * chunk) (values_length : values.length = rows * k)
    (indices_length : indices.length = rows * k) (inside : ∀ index ∈ indices, index < chunk) :
    ∃ result, detChunkScatterAdd floats acc values indices chunk = .ok result ∧
      result.length = acc.length := by
  unfold detChunkScatterAdd
  rw [if_neg (by rw [shape, Nat.mul_mod_left]; omega), if_neg (by omega)]
  have chunks : acc.length / chunk = rows := by
    rw [shape, Nat.mul_div_cancel _ positive]
  dsimp only
  rw [chunks]
  by_cases none : rows = 0
  · have empty : values = [] := by
      rw [← List.length_eq_zero_iff, values_length, none, Nat.zero_mul]
    rw [if_pos none, if_pos empty]
    exact ⟨acc, rfl, rfl⟩
  · rw [if_neg none, if_neg (by rw [values_length, Nat.mul_mod_right]; simp)]
    apply Lists.foldlM_ok (fun result : List F32 => result.length = acc.length) _ rfl
    intro sums length c _
    apply Lists.foldlM_ok (fun result : List F32 => result.length = acc.length) _ length
    intro sums length j _
    have low : indices.getD (c * (values.length / rows) + j) 0 < chunk := by
      rw [List.getD_eq_getElem?_getD]
      cases read : indices[c * (values.length / rows) + j]? with
      | none => exact positive
      | some index => exact inside index (List.mem_of_getElem? read)
    unfold scatterEntry
    dsimp only
    rw [if_neg (by omega)]
    refine ⟨_, rfl, ?_⟩
    rw [List.length_modify]
    exact length

@[simp] theorem length_unpackRow (row : List Byte) (chunk bits : Nat) :
    (unpackRow floats row chunk bits).length = chunk := by
  rw [unpackRow, List.length_map, List.length_range]

theorem bits_le_of_detAbsmaxUnpack
    (unpacked : detAbsmaxUnpack floats packed chunk bits = .ok values) :
    bits ≤ 8 := by
  unfold detAbsmaxUnpack at unpacked
  split at unpacked
  · cases unpacked
  rename_i supported
  have widths : ∀ width ∈ [1, 2, 4, 8], width ≤ 8 := by decide
  exact widths bits (not_not.mp supported)

theorem length_of_detAbsmaxUnpack (unpacked : detAbsmaxUnpack floats packed chunk bits = .ok values)
    (length : packed.length = rows * absmaxRowBytes chunk bits) :
    values.length = rows * chunk := by
  have stride : 0 < absmaxRowBytes chunk bits := by
    unfold absmaxRowBytes
    omega
  unfold detAbsmaxUnpack at unpacked
  split at unpacked
  · simp at unpacked
  split at unpacked
  · simp at unpacked
  dsimp only at unpacked
  rw [length, Nat.mul_mod_left, Nat.mul_div_cancel _ stride, if_neg (not_not_intro rfl)] at unpacked
  cases unpacked
  simp [List.length_flatMap]

theorem unpackChunkIndices_spec (unpacked : unpackChunkIndices bytes chunk count = .ok indices) :
    indices.length = count ∧ ∀ index ∈ indices, index < chunk := by
  obtain ⟨_, -, unpacked⟩ := Checks.bind_eq_ok_iff.mp unpacked
  obtain ⟨_, -, unpacked⟩ := Checks.bind_eq_ok_iff.mp unpacked
  split at unpacked
  · cases unpacked
  have related := Lists.forall₂_of_mapM_ok unpacked
  have length := related.length_eq
  rw [List.length_range] at length
  refine ⟨length.symm, ?_⟩
  intro index member
  obtain ⟨position, _, read⟩ := Lists.exists_of_mem_forall₂ related member
  unfold unpackIndex at read
  dsimp only at read
  split at read
  · cases read
  · rename_i inside
    cases read
    omega

end DaemonNode
