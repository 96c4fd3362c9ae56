import DaemonNode.Det.Kernels
import DaemonNode.Lib.Bits
import DaemonNode.Lib.Word

/-!
# Packing chunk-local indices

An index into a chunk is written with the bits its chunk needs, lowest bit
first, one index after the other. The lengths and bit positions are words, so
the loops say what they do when a product or a sum leaves its word.
-/

namespace DaemonNode

open Bits (Holds)
open Word (Overflow)

/-- Write a code from a bit position on, lowest bit first. A position past the
last byte is a panic. -/
def writeBitsLsb (mode : Overflow) (bytes : List Byte) (bitPos bits code : Nat) :
    Option (List Byte) :=
  (List.range bits).foldlM (fun bytes bit => do
    let position ← mode.add 64 bitPos bit
    if position / 8 < bytes.length then some (Bits.orBit bytes position ((code >>> bit) % 2))
    else none) bytes

/-- The packed length of a number of indices, as a word. -/
def packedIndexLenIn (mode : Overflow) (count chunk : Nat) : Option (Except DetError Nat) :=
  match indexBits chunk with
  | .error refusal => some (.error refusal)
  | .ok bits => do
    let length ← mode.mul 64 count bits
    some (.ok ((length + 7) / 8))

/-- The loop that packs the indices from a position on. -/
def packFrom (mode : Overflow) (chunk bits : Nat) :
    List Byte → Nat → List Nat → Option (Except DetError (List Byte))
  | out, _, [] => some (.ok out)
  | out, position, index :: indices =>
    if chunk ≤ index then some (.error (.indexOutOfRange index chunk))
    else do
      let bitPos ← mode.mul 64 position bits
      let out ← writeBitsLsb mode out bitPos bits index
      packFrom mode chunk bits out (position + 1) indices

def packChunkIndices (mode : Overflow) (indices : List Nat) (chunk : Nat) :
    Option (Except DetError (List Byte)) :=
  match indexBits chunk with
  | .error refusal => some (.error refusal)
  | .ok bits => do
    match ← packedIndexLenIn mode indices.length chunk with
    | .error refusal => some (.error refusal)
    | .ok length => packFrom mode chunk bits (List.replicate length 0) 0 indices

/-- Inside the bytes the loop writes the bits of the code. -/
theorem writeBitsLsb_eq (mode : Overflow) (room : bitPos + bits ≤ 8 * bytes.length)
    (fits : bitPos + bits ≤ 2 ^ 64) :
    writeBitsLsb mode bytes bitPos bits code = some (Bits.write bytes bitPos bits code) := by
  unfold writeBitsLsb
  induction bits with
  | zero => rfl
  | succ bits ih =>
    have written := ih (by omega) (by omega)
    have position := mode.add_of_lt (show bitPos + bits < 2 ^ 64 by omega)
    have long : (bitPos + bits) / 8 < (Bits.write bytes bitPos bits code).length := by
      rw [Bits.length_write]
      omega
    rw [List.range_succ, List.foldlM_append, written, Bits.write_succ]
    simp only [Option.bind_eq_bind, Option.bind_some, List.foldlM_cons, List.foldlM_nil,
      position, if_pos long]
    rfl

/-- A code is read as the string of bits has it. -/
theorem readBitsLsb_eq (bytes : List Byte) (bitPos bits : Nat) :
    readBitsLsb bytes bitPos bits = Bits.read bytes bitPos bits := by
  unfold readBitsLsb Bits.read
  congr 1
  funext code bit
  dsimp only
  congr 2
  unfold Bits.bitAt
  rw [List.getD_eq_getElem?_getD]
  cases bytes[(bitPos + bit) / 8]? with
  | none => simp
  | some byte => rw [Option.getD_some, Nat.toNat_testBit, Nat.shiftRight_eq_div_pow]

theorem lt_two_pow_of_indexBits (width : indexBits chunk = .ok bits) (inside : index < chunk) :
    index < 2 ^ bits := by
  unfold indexBits at width
  rw [if_neg (by omega)] at width
  cases width
  split
  · omega
  · have top : chunk - 1 < 2 ^ ((chunk - 1).log2 + 1) := Nat.lt_log2_self
    omega

/-- The loop writes the indices after those that are written. -/
theorem packFrom_holds (mode : Overflow) (holds : Holds out bits written)
    (inside : ∀ index ∈ indices, index < chunk)
    (room : (written.length + indices.length) * bits ≤ 8 * out.length)
    (fits : (written.length + indices.length) * bits < 2 ^ 64) :
    ∃ packed, packFrom mode chunk bits out written.length indices = some (.ok packed) ∧
      packed.length = out.length ∧ Holds packed bits (written ++ indices) := by
  induction indices generalizing out written with
  | nil => exact ⟨out, rfl, rfl, by rwa [List.append_nil]⟩
  | cons index indices ih =>
    have next : (written.length + 1) * bits ≤ (written.length + (index :: indices).length) * bits :=
      Nat.mul_le_mul_right bits (by simp)
    have stop : (written.length + 1) * bits = written.length * bits + bits :=
      Nat.succ_mul written.length bits
    have position : written.length * bits < 2 ^ 64 := by omega
    have wrote : writeBitsLsb mode out (written.length * bits) bits index = _ :=
      writeBitsLsb_eq mode (by omega) (by omega)
    have held := holds.write_next index (by omega)
    have same : written.length + (index :: indices).length =
        (written ++ [index]).length + indices.length := by
      simp only [List.length_cons, List.length_append, List.length_nil]
      omega
    obtain ⟨packed, packs, long, holdsAll⟩ := ih held
      (fun other member => inside other (List.mem_cons_of_mem _ member))
      (by rw [← same, Bits.length_write]; exact room) (by rw [← same]; exact fits)
    refine ⟨packed, ?_, long.trans Bits.length_write, ?_⟩
    · have low := inside index List.mem_cons_self
      rw [List.length_append, List.length_singleton] at packs
      rw [packFrom, if_neg (by omega), mode.mul_of_lt position]
      simp only [Option.bind_eq_bind, Option.bind_some, wrote, packs]
    · rwa [List.append_assoc, List.singleton_append] at holdsAll

theorem lt_of_mem_packFrom
    (packs : packFrom mode chunk bits out position indices = some (.ok packed)) :
    ∀ index ∈ indices, index < chunk := by
  induction indices generalizing out position with
  | nil => simp
  | cons index indices ih =>
    rw [packFrom] at packs
    split at packs
    · cases packs
    rename_i inside
    obtain ⟨bitPos, _, packs⟩ := Option.bind_eq_some_iff.mp packs
    obtain ⟨next, _, packs⟩ := Option.bind_eq_some_iff.mp packs
    exact List.forall_mem_cons.mpr ⟨Nat.not_le.mp inside, ih packs⟩

/-- Indices into the chunk are packed to the length the layout counts on, and
unpack to themselves. -/
theorem packChunkIndices_roundTrip (mode : Overflow) (width : indexBits chunk = .ok bits)
    (inside : ∀ index ∈ indices, index < chunk) (fits : indices.length * bits < 2 ^ 64) :
    ∃ packed, packChunkIndices mode indices chunk = some (.ok packed) ∧
      packedIndexLen indices.length chunk = .ok packed.length ∧
      unpackChunkIndices packed chunk indices.length = .ok indices ∧
      Holds packed bits indices := by
  have length : packedIndexLen indices.length chunk = .ok ((indices.length * bits + 7) / 8) := by
    unfold packedIndexLen
    rw [width]
    rfl
  have lengthIn : packedIndexLenIn mode indices.length chunk =
      some (.ok ((indices.length * bits + 7) / 8)) := by
    unfold packedIndexLenIn
    simp only [width, mode.mul_of_lt fits]
    rfl
  have blank := Bits.holds_replicate ((indices.length * bits + 7) / 8) bits
  obtain ⟨packed, packs, long, holds⟩ := packFrom_holds mode blank inside
    (by rw [List.length_nil, Nat.zero_add, List.length_replicate]; omega)
    (by rwa [List.length_nil, Nat.zero_add])
  rw [List.length_replicate] at long
  rw [List.nil_append] at holds
  refine ⟨packed, ?_, by rw [length, long], ?_, holds⟩
  · unfold packChunkIndices
    simp only [width, lengthIn, Option.bind_eq_bind, Option.bind_some]
    exact packs
  · unfold unpackChunkIndices
    simp only [width, length, bind, Except.bind]
    rw [if_neg (not_not_intro long)]
    apply Lists.mapM_ok_of_forall₂
    rw [List.forall₂_iff_get]
    refine ⟨List.length_range, ?_⟩
    intro position low listed
    have found : indices[position]? = some (indices.get ⟨position, listed⟩) :=
      List.getElem?_eq_getElem listed
    have member := List.mem_of_getElem? found
    have read := holds.read_eq found (lt_two_pow_of_indexBits width (inside _ member))
    unfold unpackIndex
    rw [List.get_eq_getElem, List.getElem_range, readBitsLsb_eq, read]
    dsimp only
    rw [if_neg (Nat.not_le.mpr (inside _ member))]

/-- Indices that were unpacked are held by the string, but for its padding. -/
theorem holds_of_unpackChunkIndices (width : indexBits chunk = .ok bits)
    (unpacked : unpackChunkIndices bytes chunk count = .ok indices)
    (padding : ∀ position, count * bits ≤ position → Bits.bitAt bytes position = false) :
    Holds bytes bits indices ∧ (count * bits + 7) / 8 = bytes.length := by
  have length := (unpackChunkIndices_spec unpacked).1
  unfold unpackChunkIndices packedIndexLen at unpacked
  rw [width] at unpacked
  dsimp only [bind, Except.bind, pure, Except.pure] at unpacked
  split at unpacked
  · cases unpacked
  rename_i whole
  refine ⟨⟨fun index code found bit low => ?_, length.symm ▸ padding⟩, (not_not.mp whole).symm⟩
  obtain ⟨position, listed, read⟩ :=
    Lists.exists_getElem?_of_forall₂ (Lists.forall₂_of_mapM_ok unpacked).flip found
  obtain rfl : index = position := by
    simpa using (List.getElem?_eq_some_iff.mp listed).2
  unfold unpackIndex at read
  dsimp only at read
  split at read
  · cases read
  · cases read
    rw [readBitsLsb_eq, Bits.testBit_read, decide_eq_true low, Bool.true_and]

/-- Packed indices unpack to themselves with blank padding, and a string is the packing of what
it unpacks to exactly when its padding is blank. -/
theorem indices_pack_iff_unpack
    (mode : Overflow)
    (width : indexBits chunk = .ok bits) :
    (∀ indices, (∀ index ∈ indices, index < chunk) → indices.length * bits < 2 ^ 64 →
      ∃ packed, packChunkIndices mode indices chunk = some (.ok packed) ∧
        packedIndexLen indices.length chunk = .ok packed.length ∧
        (∀ position, indices.length * bits ≤ position → Bits.bitAt packed position = false) ∧
        unpackChunkIndices packed chunk indices.length = .ok indices) ∧
    ∀ bytes count indices, unpackChunkIndices bytes chunk count = .ok indices →
      count * bits < 2 ^ 64 →
      (packChunkIndices mode indices chunk = some (.ok bytes) ↔
        ∀ position, count * bits ≤ position → Bits.bitAt bytes position = false) := by
  constructor
  · intro indices inside fits
    obtain ⟨packed, packs, length, unpacks, holds⟩ :=
      packChunkIndices_roundTrip mode width inside fits
    exact ⟨packed, packs, length, holds.blank, unpacks⟩
  · intro bytes count indices unpacked fits
    obtain ⟨rfl, inside⟩ := unpackChunkIndices_spec unpacked
    obtain ⟨packed, packs, length, -, others⟩ :=
      packChunkIndices_roundTrip mode width inside fits
    rw [packs]
    constructor
    · intro same
      obtain rfl : packed = bytes := Except.ok.inj (Option.some.inj same)
      exact others.blank
    · intro padding
      obtain ⟨holds, long⟩ := holds_of_unpackChunkIndices width unpacked padding
      rw [others.eq_of_length holds]
      rw [packedIndexLen, width] at length
      exact (Except.ok.inj length).symm.trans long

/-- Three indices into a chunk of 1536 take eleven bits each, and five bytes. -/
theorem indices_pack_eleven_bits :
    (∃ packed, packChunkIndices .trap [1535, 7, 0] 1536 = some (.ok packed) ∧
      packed.length = 5 ∧ unpackChunkIndices packed 1536 3 = .ok [1535, 7, 0]) ∧
    unpackChunkIndices [255, 61, 0, 0, 0] 1536 3 = .ok [1535, 7, 0] ∧
      packChunkIndices .trap [1535, 7, 0] 1536 = some (.ok [255, 61, 0, 0, 0]) := by
  have width : indexBits 1536 = .ok 11 := by decide
  have unpacked : unpackChunkIndices [255, 61, 0, 0, 0] 1536 3 = .ok [1535, 7, 0] := by
    decide
  obtain ⟨packs, repacks⟩ := indices_pack_iff_unpack .trap width
  refine ⟨?_, unpacked, (repacks _ _ _ unpacked (by decide)).mpr ?_⟩
  · obtain ⟨packed, packed_eq, length, _, unpacks⟩ := packs [1535, 7, 0] (by decide) (by decide)
    exact ⟨packed, packed_eq, (Except.ok.inj length).symm, unpacks⟩
  · intro position padding
    by_cases inside : position < 40
    · have last : ∀ bit < 40, 33 ≤ bit → Bits.bitAt [255, 61, 0, 0, 0] bit = false := by decide
      exact last position inside padding
    · have outside : 5 ≤ position / 8 := by omega
      rw [Bits.bitAt, List.getElem?_eq_none outside]

/-- The unpacker does not look at the padding: a set bit of it is accepted. -/
theorem unpack_accepts_padding :
    unpackChunkIndices [2] 2 1 = .ok [0] ∧ packChunkIndices .trap [0] 2 = some (.ok [0]) := by
  decide

end DaemonNode
