import DaemonNode.Lib.Lists
import DaemonNode.Lib.Parts
import DaemonNode.Lib.Word
import DaemonNode.Proto.Bytes

/-!
# Chunks of a state family

A state family is the concatenation of its parameters' little-endian 32-bit
images. Each parameter is chunked on its own: its chunks are of one size but
for a short last one, and no chunk spans two parameters. The count, the lengths
and the hashes of the chunks are computed independently.
-/

namespace DaemonNode.DetState

open Word (Overflow)

def stateElemBytes : Nat := 4

def paramChunkCount (mode : Overflow) (numel chunkSize : Nat) : Option Nat :=
  if chunkSize = 0 then some 0
  else do
    let bytes ← mode.mul 64 numel stateElemBytes
    some ((bytes + chunkSize - 1) / chunkSize)

def familyChunkCount (mode : Overflow) (numels : List Nat) (chunkSize : Nat) :
    Option Nat :=
  mode.sum 64 (fun numel => paramChunkCount mode numel chunkSize) numels

def familyByteLen (mode : Overflow) (numels : List Nat) : Option Nat :=
  mode.sum 64 (fun numel => mode.mul 64 numel stateElemBytes) numels

/-- The hash of each chunk of each parameter, in order. -/
def familyChunkHashes (blake3 : List Byte → Hash) (params : List (List Byte))
    (chunkSize : Nat) : List Hash :=
  if chunkSize = 0 then []
  else (params.flatMap fun param => Parts.chunks chunkSize param.length param).map blake3

/-- The length of each chunk of one parameter, cast to 32 bits. -/
def paramChunkLens (mode : Overflow) (chunkSize numel : Nat) : Option (List Nat) := do
  let remaining ← mode.mul 64 numel stateElemBytes
  some ((Parts.cuts chunkSize remaining remaining).map (· % 2 ^ 32))

/-- The length of each chunk of each parameter, in order. -/
def familyChunkLens (mode : Overflow) (numels : List Nat) (chunkSize : Nat) :
    Option (List Nat) :=
  if chunkSize = 0 then some []
  else do
    let lens ← numels.mapM (paramChunkLens mode chunkSize)
    some lens.flatten

section Layout

variable {numels : List Nat}

/-- The bytes of one parameter of a layout that fits. -/
theorem mul_stateElemBytes (mode : Overflow) (fits : (numels.map (· * stateElemBytes)).sum < 2 ^ 64)
    (member : numel ∈ numels) :
    mode.mul 64 numel stateElemBytes = some (numel * stateElemBytes) := by
  have included := List.le_sum_of_mem (List.mem_map_of_mem (f := (· * stateElemBytes)) member)
  apply mode.mul_of_lt
  exact included.trans_lt fits

theorem familyChunkCount_eq (mode : Overflow) (positive : 0 < chunkSize)
    (fits : (numels.map (· * stateElemBytes)).sum < 2 ^ 64) :
    familyChunkCount mode numels chunkSize = some (numels.map fun numel =>
      (numel * stateElemBytes + chunkSize - 1) / chunkSize).sum := by
  apply mode.sum_of_lt
  · intro numel member
    simp only [paramChunkCount, if_neg positive.ne', mul_stateElemBytes mode fits member,
      Option.bind_eq_bind, Option.bind_some]
  · refine (List.sum_le_sum ?_).trans_lt fits
    intro numel _
    exact Parts.ceil_le positive _

/-- Chunks of at most 32 bits keep their lengths. -/
theorem familyChunkLens_eq (mode : Overflow) (positive : 0 < chunkSize) (word : chunkSize < 2 ^ 32)
    (fits : (numels.map (· * stateElemBytes)).sum < 2 ^ 64) :
    familyChunkLens mode numels chunkSize = some (numels.flatMap fun numel =>
      Parts.cuts chunkSize (numel * stateElemBytes) (numel * stateElemBytes)) := by
  have lens : numels.mapM (paramChunkLens mode chunkSize) =
      some (numels.map fun numel =>
        Parts.cuts chunkSize (numel * stateElemBytes) (numel * stateElemBytes)) := by
    apply Lists.mapM_eq_some_map
    intro numel member
    simp only [paramChunkLens, mul_stateElemBytes mode fits member, Option.bind_eq_bind,
      Option.bind_some, Option.some.injEq]
    conv_rhs => rw [← List.map_id (Parts.cuts _ _ _)]
    apply List.map_congr_left
    intro piece inside
    exact Nat.mod_eq_of_lt ((Parts.bounds_of_mem_cuts positive inside).2.trans_lt word)
  simp only [familyChunkLens, if_neg positive.ne', lens, Option.bind_eq_bind,
    Option.bind_some, List.flatMap_def]

end Layout

end DaemonNode.DetState
