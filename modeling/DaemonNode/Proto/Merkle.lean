import DaemonNode.Proto.Bytes
import Mathlib.Data.List.Sort
import Mathlib.Data.Prod.Lex

/-!
# Merkle set commitments

A set of `(peer, payload-hash)` pairs is committed to by a merkle root over
the sorted pairs and the number of pairs. Leaves and interior nodes carry
different prefix bytes, and a level of odd length pairs its last node with
itself. The hash function is a parameter of every definition.
-/

namespace DaemonNode.Merkle

structure SetCommitment where
  root : Root
  count : Nat
  deriving DecidableEq

/-- A built tree over a set, with all its levels. -/
structure SetCommitmentTree where
  /-- The sorted, duplicate-free elements. -/
  entries : List (PeerId × Hash)
  /-- The levels, from the leaves to the root. -/
  levels : List (List Hash)

section Tree

variable (blake3 : List Byte → Hash)

/-- Hash of a leaf, under the leaf prefix byte. -/
def leafHash (peer : PeerId) (hash : Hash) : Hash :=
  blake3 (0 :: (peer.asBytes ++ hash.asBytes))

/-- Hash of an interior node, under the node prefix byte. -/
def nodeHash (left right : Hash) : Hash :=
  blake3 (1 :: (left.asBytes ++ right.asBytes))

def emptyRoot : Hash :=
  blake3 (labelBytes "daemon-vhc/merkle-empty/1.0.0")

/-- The level above a level: neighbours are paired, an odd last node with
itself. -/
def nextLevel : List Hash → List Hash
  | [] => []
  | [last] => [nodeHash blake3 last last]
  | left :: right :: rest => nodeHash blake3 left right :: nextLevel rest

/-- The levels from a given one upwards, while a level has two nodes or more.
The first argument bounds the number of levels. -/
def buildLevels : Nat → List Hash → List (List Hash)
  | 0, level => [level]
  | bound + 1, level =>
    if 1 < level.length then level :: buildLevels bound (nextLevel blake3 level)
    else [level]

/-- Sort pairs by peer bytes, then by hash, and drop repetitions. -/
def sortPairs (entries : List (PeerId × Hash)) : List (PeerId × Hash) :=
  (entries.insertionSort fun left right => toLex left ≤ toLex right).destutter (· ≠ ·)

/-- Build the commitment tree of a set of pairs. -/
def commitSet (entries : List (PeerId × Hash)) : SetCommitmentTree :=
  let sorted := sortPairs entries
  let leaves := sorted.map fun entry => leafHash blake3 entry.1 entry.2
  { entries := sorted
    levels :=
      if leaves = [] then [leaves, [emptyRoot blake3]]
      else buildLevels blake3 leaves.length leaves }

end Tree

namespace SetCommitmentTree

/-- The merkle root: the only node of the last level. -/
def root (tree : SetCommitmentTree) : Root :=
  (tree.levels.getLastD []).headD (Bytes.fill 32 0)

/-- The signed commitment, its count held in 32 bits. -/
def commitment (tree : SetCommitmentTree) : SetCommitment :=
  { root := tree.root, count := tree.entries.length % 2 ^ 32 }

end SetCommitmentTree

section Facts

variable (blake3 : List Byte → Hash)

@[simp] theorem length_nextLevel (level : List Hash) :
    (nextLevel blake3 level).length = (level.length + 1) / 2 := by
  fun_induction nextLevel blake3 level with
  | case1 | case2 => simp
  | case3 left right rest ih =>
    simp only [List.length_cons, ih]
    omega

end Facts

end DaemonNode.Merkle
