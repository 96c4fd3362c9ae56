import DaemonNode.Lib.HashTree
import DaemonNode.Lib.Lists
import DaemonNode.Proto.Merkle

/-!
# Membership proofs of set commitments

A built tree proves that the pair at an index belongs to the committed set, and a
commitment verifies such a proof. The levels of the tree are a tower of the hash
tree library.

A 32-byte hash cannot be injective on longer inputs. What is assumed is that it
has no collision among the leaves and nodes that are hashed.
-/

namespace DaemonNode.Merkle

open Bytes (fill)

/-- A membership proof against a commitment. -/
structure MembershipProof where
  leafIndex : Nat
  /-- The sibling hashes, from the leaf level up to the root. -/
  siblings : List Hash
  deriving DecidableEq

namespace SetCommitmentTree

/-- The sibling of an index in each of the levels; an index past a level
panics. -/
def siblings : Nat → List (List Hash) → Option (List Hash)
  | _, [] => some []
  | index, level :: levels => do
    let sibling ← if index ^^^ 1 < level.length then level[index ^^^ 1]? else level[index]?
    let rest ← siblings (index >>> 1) levels
    some (sibling :: rest)

/-- A proof for the element at an index of the sorted set, if there is one. -/
def prove (tree : SetCommitmentTree) (index : Nat) : Option (Option MembershipProof) :=
  if tree.entries.length ≤ index then some none
  else do
    let siblings ← siblings index tree.levels.dropLast
    some (some { leafIndex := index % 2 ^ 32, siblings })

end SetCommitmentTree

section Verify

variable (blake3 : List Byte → Hash)

/-- The root that a leaf and its siblings lead to. -/
def reconstruct : Nat → Hash → List Hash → Hash
  | _, current, [] => current
  | index, current, sibling :: siblings =>
    reconstruct (index >>> 1)
      (if index &&& 1 = 0 then nodeHash blake3 current sibling
        else nodeHash blake3 sibling current)
      siblings

/-- Verify that a pair is the element at the proof's index of the committed
set. -/
def SetCommitment.verifyMembership (commitment : SetCommitment) (peer : PeerId)
    (hash : Hash) (proof : MembershipProof) : Except VhcProtoError Unit :=
  if commitment.count = 0 then .error (.merkle "set is empty")
  else if commitment.count ≤ proof.leafIndex then .error (.merkle "leaf index out of range")
  else if reconstruct blake3 proof.leafIndex (leafHash blake3 peer hash) proof.siblings =
      commitment.root then
    .ok ()
  else .error (.merkle "membership proof does not reconstruct the committed root")

end Verify

section Sorted

variable (entries : List (PeerId × Hash))

theorem mem_sortPairs (pair : PeerId × Hash) : pair ∈ sortPairs entries ↔ pair ∈ entries := by
  rw [sortPairs, Lists.mem_destutter_ne, List.mem_insertionSort]

theorem length_sortPairs_eq_zero_iff : (sortPairs entries).length = 0 ↔ entries = [] := by
  rw [List.length_eq_zero_iff, List.eq_nil_iff_forall_not_mem, List.eq_nil_iff_forall_not_mem]
  simp only [mem_sortPairs]

theorem pairwise_sortPairs :
    (sortPairs entries).Pairwise fun left right => toLex left < toLex right :=
  Lists.pairwise_lt_destutter_ne toLex.injective (Lists.pairwise_insertionSort_key toLex entries)

theorem nodup_sortPairs : (sortPairs entries).Nodup :=
  (pairwise_sortPairs entries).imp fun less same => by simp [same] at less

variable {entries}

/-- The sorted set is the same for the same members. -/
theorem sortPairs_eq_iff :
    sortPairs entries = sortPairs others ↔ ∀ pair, pair ∈ entries ↔ pair ∈ others := by
  constructor
  · intro same pair
    rw [← mem_sortPairs entries, same, mem_sortPairs]
  · intro same
    have members : ∀ pair, pair ∈ sortPairs entries ↔ pair ∈ sortPairs others := by
      intro pair
      rw [mem_sortPairs, mem_sortPairs, same]
    have irreflexive : Std.Irrefl fun left right : PeerId × Hash =>
        toLex left < toLex right := ⟨fun _ => lt_irrefl _⟩
    have antisymmetric : Std.Antisymm fun left right : PeerId × Hash =>
        toLex left < toLex right := ⟨fun _ _ less more => absurd more less.asymm⟩
    exact (pairwise_sortPairs entries).eq_of_mem_iff (pairwise_sortPairs others) members

end Sorted

section Tower

variable {blake3 : List Byte → Hash}

theorem siblings_eq (index : Nat) (levels : List (List Hash)) :
    SetCommitmentTree.siblings index levels = HashTree.siblings index levels := by
  induction levels generalizing index with
  | nil => rfl
  | cons level levels ih =>
    rw [SetCommitmentTree.siblings, HashTree.siblings, HashTree.partner, ih, Nat.shiftRight_one]
    split <;> rfl

theorem reconstruct_eq (index : Nat) (current : Hash) (siblings : List Hash) :
    reconstruct blake3 index current siblings =
      HashTree.climb (nodeHash blake3) index current siblings := by
  induction siblings generalizing index current with
  | nil => rfl
  | cons sibling siblings ih =>
    rw [reconstruct, HashTree.climb, ih, Nat.shiftRight_one, Nat.and_one_is_mod, HashTree.ordered]
    split <;> rfl

theorem nextLevel_eq (level : List Hash) :
    nextLevel blake3 level = HashTree.above (nodeHash blake3) level := by
  fun_induction nextLevel blake3 level with
  | case1 | case2 => rfl
  | case3 left right rest ih =>
    rw [ih]
    rfl

/-- Enough turns of the loop build a tower. -/
theorem tower_of_buildLevels (blake3 : List Byte → Hash) (nonempty : level ≠ [])
    (enough : level.length ≤ bound) :
    ∃ below root, buildLevels blake3 bound level = below ++ [[root]] ∧
      HashTree.Tower (nodeHash blake3) level below root := by
  have positive := List.length_pos_iff.mpr nonempty
  induction bound generalizing level with
  | zero => omega
  | succ bound ih =>
    rw [buildLevels]
    by_cases several : 1 < level.length
    · have shorter := length_nextLevel blake3 level
      have above : nextLevel blake3 level ≠ [] := List.length_pos_iff.mp (by omega)
      obtain ⟨below, root, built, tower⟩ := ih above (by omega) (by omega)
      rw [if_pos several, built]
      exact ⟨level :: below, root, rfl, .level several (nextLevel_eq level ▸ tower)⟩
    · obtain ⟨root, rfl⟩ : ∃ root, level = [root] := by
        rw [← List.length_eq_one_iff]
        omega
      exact ⟨[], root, rfl, .root root⟩

def pairHash (blake3 : List Byte → Hash) (pair : PeerId × Hash) : Hash :=
  leafHash blake3 pair.1 pair.2

/-- The levels of a nonempty set are a tower over its leaves. -/
theorem tower_of_commitSet (nonempty : sortPairs entries ≠ []) :
    HashTree.Tower (nodeHash blake3) ((sortPairs entries).map (pairHash blake3))
      (commitSet blake3 entries).levels.dropLast (commitSet blake3 entries).root := by
  have leaves : (sortPairs entries).map (pairHash blake3) ≠ [] := by
    simpa using nonempty
  obtain ⟨below, root, built, tower⟩ := tower_of_buildLevels blake3 leaves le_rfl
  have levels : (commitSet blake3 entries).levels = below ++ [[root]] := by
    rw [← built]
    exact if_neg leaves
  rw [SetCommitmentTree.root, levels, List.dropLast_concat, List.getLastD_concat]
  exact tower

end Tower

section Hashed

variable (blake3 : List Byte → Hash)

/-- The couples of nodes hashed in building a tree. -/
def SetCommitmentTree.couples (tree : SetCommitmentTree) : List (Hash × Hash) :=
  tree.levels.dropLast.flatMap HashTree.couples

/-- The couples of nodes hashed in verifying a proof. -/
def MembershipProof.couples (proof : MembershipProof) (pair : PeerId × Hash) :
    List (Hash × Hash) :=
  HashTree.climbed (nodeHash blake3) proof.leafIndex (pairHash blake3 pair) proof.siblings

/-- The leaf hash and the node hash are injective, with disjoint ranges, on these
pairs and couples. -/
def CollisionFree (pairs : List (PeerId × Hash)) (couples : List (Hash × Hash)) : Prop :=
  HashTree.Separated (pairHash blake3) (nodeHash blake3) {pair | pair ∈ pairs}
    {couple | couple ∈ couples}

/-- The byte strings hashed for these pairs and couples. -/
def hashedBytes (pairs : List (PeerId × Hash)) (couples : List (Hash × Hash)) :
    List (List Byte) :=
  pairs.map (fun pair => 0 :: (pair.1.asBytes ++ pair.2.asBytes)) ++
    couples.map fun couple => 1 :: (couple.1.asBytes ++ couple.2.asBytes)

variable {blake3}

theorem asBytes_append_inj {first second : Bytes length × Bytes width}
    (same : first.1.asBytes ++ first.2.asBytes = second.1.asBytes ++ second.2.asBytes) :
    first = second := by
  have long : first.1.asBytes.length = second.1.asBytes.length := first.1.2.trans second.1.2.symm
  obtain ⟨left, right⟩ := List.append_inj same long
  exact Prod.ext (Subtype.ext left) (Subtype.ext right)

/-- The prefix bytes keep leaves and nodes apart, so a hash without collisions on
the byte strings has none on pairs and couples. -/
theorem collisionFree_of_bytes
    (injective : ∀ first ∈ hashedBytes pairs couples, ∀ second ∈ hashedBytes pairs couples,
      blake3 first = blake3 second → first = second) :
    CollisionFree blake3 pairs couples := by
  have leaf : ∀ pair ∈ pairs, 0 :: (pair.1.asBytes ++ pair.2.asBytes) ∈ hashedBytes pairs couples :=
    fun pair member => List.mem_append_left _ (List.mem_map_of_mem member)
  have node : ∀ couple ∈ couples,
      1 :: (couple.1.asBytes ++ couple.2.asBytes) ∈ hashedBytes pairs couples :=
    fun couple member => List.mem_append_right _ (List.mem_map_of_mem member)
  refine ⟨?_, ?_, ?_⟩
  · intro first firstMember second secondMember same
    have bytes := injective _ (leaf first firstMember) _ (leaf second secondMember) same
    exact asBytes_append_inj (List.cons.inj bytes).2
  · intro first firstMember second secondMember same
    have bytes := injective _ (node first firstMember) _ (node second secondMember) same
    exact asBytes_append_inj (List.cons.inj bytes).2
  · intro pair pairMember couple coupleMember same
    have bytes := injective _ (leaf pair pairMember) _ (node couple coupleMember) same
    exact absurd (List.cons.inj bytes).1 (by decide)

end Hashed

/-- While the count fits its 32 bits, the proof for an element is accepted. -/
theorem verifyMembership_prove (few : (sortPairs entries).length < 2 ^ 32)
    (found : (sortPairs entries)[index]? = some pair) :
    ∃ proof, (commitSet blake3 entries).prove index = some (some proof) ∧
      (commitSet blake3 entries).commitment.verifyMembership blake3 pair.1 pair.2 proof =
        .ok () := by
  obtain ⟨inside, _⟩ := List.getElem?_eq_some_iff.mp found
  have nonempty : sortPairs entries ≠ [] := List.ne_nil_of_length_pos (by omega)
  have leaf : ((sortPairs entries).map (pairHash blake3))[index]? =
      some (pairHash blake3 pair) := by
    rw [List.getElem?_map, found]
    rfl
  obtain ⟨path, listed, reached⟩ := (tower_of_commitSet nonempty).climb_siblings leaf
  have small : index % 2 ^ 32 = index := Nat.mod_eq_of_lt (inside.trans few)
  have count : (commitSet blake3 entries).commitment.count = (sortPairs entries).length :=
    Nat.mod_eq_of_lt few
  refine ⟨⟨index, path⟩, ?_, ?_⟩
  · have within : ¬(commitSet blake3 entries).entries.length ≤ index := Nat.not_le.mpr inside
    rw [SetCommitmentTree.prove, if_neg within, siblings_eq, listed, small]
    rfl
  · rw [SetCommitment.verifyMembership, count, if_neg (by omega),
      if_neg (Nat.not_le.mpr inside), reconstruct_eq]
    exact if_pos reached

/-- An accepted proof is of the element at its index. -/
theorem getElem?_of_verifyMembership
    (free : CollisionFree blake3 (pair :: sortPairs entries)
      (proof.couples blake3 pair ++ (commitSet blake3 entries).couples))
    (verified : (commitSet blake3 entries).commitment.verifyMembership blake3 pair.1 pair.2
      proof = .ok ()) :
    (sortPairs entries)[proof.leafIndex]? = some pair := by
  rw [SetCommitment.verifyMembership, reconstruct_eq] at verified
  split at verified
  · cases verified
  split at verified
  · cases verified
  split at verified
  · rename_i _ below reached
    have inside : proof.leafIndex < (sortPairs entries).length :=
      (Nat.not_le.mp below).trans_le (Nat.mod_le _ _)
    have nonempty : sortPairs entries ≠ [] := List.ne_nil_of_length_pos (by omega)
    exact (tower_of_commitSet nonempty).item_of_climb free
      (fun item member => List.mem_cons_of_mem _ member)
      (fun couple member => List.mem_append_right _ member) List.mem_cons_self
      (fun couple member => List.mem_append_left _ member) inside reached
  · cases verified

/-- A commitment belongs to one set. -/
theorem commitment_eq_iff
    (free : CollisionFree blake3 (sortPairs entries ++ sortPairs others)
      ((commitSet blake3 entries).couples ++ (commitSet blake3 others).couples))
    (few : entries = [] ∨ others = [] →
      (sortPairs entries).length < 2 ^ 32 ∧ (sortPairs others).length < 2 ^ 32) :
    (commitSet blake3 entries).commitment = (commitSet blake3 others).commitment ↔
      ∀ pair, pair ∈ entries ↔ pair ∈ others := by
  constructor
  · intro same
    obtain ⟨sameRoot, sameCount⟩ := SetCommitment.mk.inj same
    by_cases either : entries = [] ∨ others = []
    · obtain ⟨short, otherShort⟩ := few either
      have sameLength : (sortPairs entries).length = (sortPairs others).length :=
        (Nat.mod_eq_of_lt short).symm.trans (sameCount.trans (Nat.mod_eq_of_lt otherShort))
      have both : entries = [] ↔ others = [] := by
        rw [← length_sortPairs_eq_zero_iff, ← length_sortPairs_eq_zero_iff, sameLength]
      have empty : entries = [] := either.elim id both.mpr
      rw [empty, both.mp empty]
      exact fun _ => Iff.rfl
    · rw [not_or, ← length_sortPairs_eq_zero_iff, ← length_sortPairs_eq_zero_iff,
        List.length_eq_zero_iff, List.length_eq_zero_iff] at either
      intro pair
      rw [← mem_sortPairs entries, ← mem_sortPairs others]
      exact (tower_of_commitSet either.1).mem_items_iff free
        (sameRoot ▸ tower_of_commitSet either.2)
        (fun item member => List.mem_append_left _ member)
        (fun item member => List.mem_append_right _ member)
        (fun couple member => List.mem_append_left _ member)
        (fun couple member => List.mem_append_right _ member) pair
  · intro same
    unfold commitSet
    rw [sortPairs_eq_iff.mpr same]

/-- Set commitments are complete, sound and binding. While the pairs are fewer
than `2 ^ 32`, every one of them has a proof that is accepted. An accepted proof,
whatever its index and siblings, is of the pair at its index. Two lists have one
commitment exactly when they have the same members; an empty list is told from one
whose count wraps only while the count fits its word. -/
theorem setCommitment_complete_sound_binding (blake3 : List Byte → Hash)
    (entries : List (PeerId × Hash)) :
    ((commitSet blake3 entries).entries.length < 2 ^ 32 →
      ∀ pair ∈ entries, ∃ index, (commitSet blake3 entries).entries[index]? = some pair ∧
        ∃ proof, (commitSet blake3 entries).prove index = some (some proof) ∧
          (commitSet blake3 entries).commitment.verifyMembership blake3 pair.1 pair.2
            proof = .ok ()) ∧
    (∀ pair proof,
      CollisionFree blake3 (pair :: (commitSet blake3 entries).entries)
        (proof.couples blake3 pair ++ (commitSet blake3 entries).couples) →
      (commitSet blake3 entries).commitment.verifyMembership blake3 pair.1 pair.2 proof = .ok () →
      (commitSet blake3 entries).entries[proof.leafIndex]? = some pair) ∧
    ∀ others,
      CollisionFree blake3
        ((commitSet blake3 entries).entries ++ (commitSet blake3 others).entries)
        ((commitSet blake3 entries).couples ++ (commitSet blake3 others).couples) →
      (entries = [] ∨ others = [] →
        (commitSet blake3 entries).entries.length < 2 ^ 32 ∧
          (commitSet blake3 others).entries.length < 2 ^ 32) →
      ((commitSet blake3 entries).commitment = (commitSet blake3 others).commitment ↔
        ∀ pair, pair ∈ entries ↔ pair ∈ others) := by
  refine ⟨?_, ?_, ?_⟩
  · intro few pair member
    obtain ⟨index, found⟩ := List.mem_iff_getElem?.mp ((mem_sortPairs entries pair).mpr member)
    exact ⟨index, found, verifyMembership_prove few found⟩
  · intro pair proof free verified
    exact getElem?_of_verifyMembership free verified
  · intro others free few
    exact commitment_eq_iff free few

/-- A hash for samples: the bytes as digits, modulo a prime. -/
def sampleHash (bytes : List Byte) : Hash :=
  ⟨toLeBytes 32 (bytes.foldl (fun digest byte => (digest * 257 + byte.val) % 1000003) 1),
    length_toLeBytes 32 _⟩

/-- Three members, one listed twice. -/
def samplePairs : List (PeerId × Hash) :=
  [(fill 32 2, fill 32 7), (fill 32 1, fill 32 8), (fill 32 2, fill 32 7), (fill 32 3, fill 32 9)]

/-- A proof of the last of the three members: its node is paired with itself. -/
def sampleProof : MembershipProof :=
  { leafIndex := 2
    siblings :=
      [leafHash sampleHash (fill 32 3) (fill 32 9),
        nodeHash sampleHash (leafHash sampleHash (fill 32 1) (fill 32 8))
          (leafHash sampleHash (fill 32 2) (fill 32 7))] }

/-- Three members are proved, an accepted proof is of its member, and the order of
the list does not matter. -/
theorem three_pairs_committed :
    (∀ pair ∈ samplePairs, ∃ index,
      (commitSet sampleHash samplePairs).entries[index]? = some pair ∧
        ∃ proof, (commitSet sampleHash samplePairs).prove index = some (some proof) ∧
          (commitSet sampleHash samplePairs).commitment.verifyMembership sampleHash pair.1
            pair.2 proof = .ok ()) ∧
    (commitSet sampleHash samplePairs).entries[2]? = some (fill 32 3, fill 32 9) ∧
    (commitSet sampleHash samplePairs).commitment =
      (commitSet sampleHash samplePairs.reverse).commitment := by
  obtain ⟨complete, sound, binding⟩ := setCommitment_complete_sound_binding sampleHash samplePairs
  refine ⟨complete (by decide +kernel), ?_, ?_⟩
  · exact sound _ sampleProof (collisionFree_of_bytes (by decide +kernel)) (by decide +kernel)
  · refine (binding _ (collisionFree_of_bytes (by decide +kernel)) ?_).mpr
      fun pair => List.mem_reverse.symm
    simp [samplePairs]

/-- A list of distinct pairs of any length up to the number of peers. -/
theorem exists_distinct_pairs (fits : count ≤ 256 ^ 32) :
    ∃ entries : List (PeerId × Hash), entries.Nodup ∧ entries.length = count := by
  refine ⟨(List.range count).map fun index =>
    (⟨toLeBytes 32 index, length_toLeBytes 32 index⟩, fill 32 0), ?_, ?_⟩
  · apply List.Nodup.map_on _ List.nodup_range
    intro first firstMember second secondMember same
    have bytes : toLeBytes 32 first = toLeBytes 32 second :=
      congrArg Subtype.val (Prod.mk.inj same).1
    exact toLeBytes_inj ((List.mem_range.mp firstMember).trans_le fits)
      ((List.mem_range.mp secondMember).trans_le fits) bytes
  · rw [List.length_map, List.length_range]

/-- Of `2 ^ 32` pairs the count wraps to zero, and no proof of a member is
accepted. -/
theorem wrapped_count_rejects_members :
    ∃ entries : List (PeerId × Hash), ∃ pair ∈ entries, ∀ blake3 proof,
      (commitSet blake3 entries).commitment.verifyMembership blake3 pair.1 pair.2 proof =
        .error (.merkle "set is empty") := by
  obtain ⟨entries, distinct, length_eq⟩ :=
    exists_distinct_pairs (Nat.pow_le_pow_left (show 2 ≤ 256 by decide) 32)
  have nonempty : entries ≠ [] := by
    apply List.ne_nil_of_length_pos
    rw [length_eq]
    exact Nat.two_pow_pos 32
  obtain ⟨pair, member⟩ := List.exists_mem_of_ne_nil entries nonempty
  refine ⟨entries, pair, member, fun blake3 proof => if_pos ?_⟩
  change (sortPairs entries).length % 2 ^ 32 = 0
  have same := (List.perm_ext_iff_of_nodup (nodup_sortPairs entries) distinct).mpr
    (mem_sortPairs entries)
  rw [same.length_eq, length_eq, Nat.mod_self]

end DaemonNode.Merkle
