import DaemonNode.Consensus.Assignment
import DaemonNode.Lib.Word

/-!
# Elections from the roster

Verifiers, checkpointers and the publisher of a checkpoint slot are drawn from
the sorted roster, so that the order in which a peer lists the roster does not
show. The publisher is a fixed draw moved on by the slot, and over as many slots
as there are peers it is each of them once.
-/

namespace DaemonNode.Assignment

open Word (Overflow)

def verifierSalt : List Byte := labelBytes "daemon-vhc/verifier/1.0.0"

def checkpointerSalt : List Byte := labelBytes "daemon-vhc/checkpointer/1.0.0"

section

variable (blake3 : List Byte → Hash) (roster : List PeerId) (seed : Seed)

/-- Select the verifiers, a share of the roster in percent. -/
def selectVerifiers (mode : Overflow) (percent : UInt32) : Option (List PeerId) :=
  if percent = 0 ∨ roster.isEmpty then some []
  else
    let pool := canonicalRoster roster
    (mode.mul 64 pool.length percent.toNat).map fun product =>
      let count := max 1 (min ((product + 99) / 100) pool.length)
      (deterministicShuffle pool (seededLcg blake3 seed verifierSalt)).1.take count

/-- Elect the checkpointer that breaks ties. -/
def electCheckpointer : Option PeerId :=
  if roster.isEmpty then none
  else
    let pool := canonicalRoster roster
    pool[((seededLcg blake3 seed checkpointerSalt).below pool.length).1]?

def electCheckpointPublisherForSlot (remoteSlotIndex : Nat) : Option PeerId :=
  if roster.isEmpty then none
  else
    let pool := canonicalRoster roster
    let base := ((seededLcg blake3 seed checkpointerSalt).below pool.length).1
    pool[(base + remoteSlotIndex % pool.length) % pool.length]?

def electCheckpointers (count : Nat) : List PeerId :=
  if roster.isEmpty ∨ count = 0 then []
  else
    let pool := canonicalRoster roster
    (deterministicShuffle pool (seededLcg blake3 seed checkpointerSalt)).1.take
      (min count pool.length)

end

variable {roster listed : List PeerId}

/-- The sorted roster does not show the order of the listing. -/
theorem canonicalRoster_eq_of_perm (rearranged : listed.Perm roster) :
    canonicalRoster listed = canonicalRoster roster := by
  have sorted : listed.insertionSort (· ≤ ·) = roster.insertionSort (· ≤ ·) := by
    apply List.Perm.eq_of_pairwise' (List.pairwise_insertionSort _ _)
      (List.pairwise_insertionSort _ _)
    exact (List.perm_insertionSort _ _).trans (rearranged.trans (List.perm_insertionSort _ _).symm)
  rw [canonicalRoster, canonicalRoster, sorted]

/-- Sorting a roster without repetitions drops no peer. -/
theorem canonicalRoster_perm (distinct : roster.Nodup) : (canonicalRoster roster).Perm roster := by
  have sorted := List.perm_insertionSort (· ≤ ·) roster
  rw [canonicalRoster, List.destutter_of_isChain]
  · exact sorted
  · exact (sorted.nodup_iff.mpr distinct).isChain

/-- Two listings of one set of peers elect the same. The witnesses are peers, each
once, and as many as the target asks for and there are. -/
theorem elections_of_peer_set (blake3 : List Byte → Hash) (seed : Seed) (distinct : roster.Nodup)
    (rearranged : listed.Perm roster) :
    (∀ witnessTarget, selectCommittee blake3 listed seed witnessTarget =
      selectCommittee blake3 roster seed witnessTarget) ∧
    (∀ mode percent, selectVerifiers blake3 listed seed mode percent =
      selectVerifiers blake3 roster seed mode percent) ∧
    electCheckpointer blake3 listed seed = electCheckpointer blake3 roster seed ∧
    electCheckpointers blake3 listed seed = electCheckpointers blake3 roster seed ∧
    ∀ witnessTarget, (selectCommittee blake3 roster seed witnessTarget).witnesses.Nodup ∧
      (selectCommittee blake3 roster seed witnessTarget).witnesses ⊆ roster ∧
      (selectCommittee blake3 roster seed witnessTarget).witnesses.length =
        if witnessTarget = 0 then roster.length else min witnessTarget roster.length := by
  have same := canonicalRoster_eq_of_perm rearranged
  have empty := rearranged.isEmpty_eq
  refine ⟨fun _ => ?_, fun _ _ => ?_, ?_, ?_, fun witnessTarget => ⟨?_, ?_, ?_⟩⟩
  · rw [selectCommittee, selectCommittee, same]
  · rw [selectVerifiers, selectVerifiers, same, empty]
  · rw [electCheckpointer, electCheckpointer, same, empty]
  · funext count
    rw [electCheckpointers, electCheckpointers, same, empty]
  · exact selectCommittee_witnesses_nodup blake3 roster seed witnessTarget
  · intro peer drawn
    exact (canonicalRoster_perm distinct).mem_iff.mp
      ((deterministicShuffle_perm _ _).mem_iff.mp (List.mem_of_mem_take drawn))
  · have pool := (deterministicShuffle_perm (canonicalRoster roster)
      (seededLcg blake3 seed witnessSalt)).trans (canonicalRoster_perm distinct)
    rw [selectCommittee, List.length_take, pool.length_eq]
    split
    · exact min_self _
    · omega

/-- Two peers, listed either way. -/
theorem elections_of_two_peers :
    electCheckpointers (fun _ => Bytes.fill 32 0) [Bytes.fill 32 1, Bytes.fill 32 2]
        (Bytes.fill 32 0) =
      electCheckpointers (fun _ => Bytes.fill 32 0) [Bytes.fill 32 2, Bytes.fill 32 1]
        (Bytes.fill 32 0) :=
  (elections_of_peer_set _ _ (by decide) (List.Perm.swap _ _ _)).2.2.2.1

/-- As many consecutive numbers as a divisor leave each remainder once. -/
theorem map_mod_range'_perm (start count : Nat) :
    ((List.range' start count).map (· % count)).Perm (List.range count) := by
  have remainders : Multiset.map (· % count) (List.range' start (start + count - start)) =
    Multiset.range count := Nat.multiset_Ico_map_mod start count
  rw [Nat.add_sub_cancel_left] at remainders
  exact Multiset.coe_eq_coe.mp remainders

/-- Over as many slots as there are peers each peer is the publisher once, and of
two peers or more the same one is not publisher twice in a row. -/
theorem publishers_rotate (blake3 : List Byte → Hash) (seed : Seed) (distinct : roster.Nodup)
    (slot : Nat) :
    ((List.range' slot roster.length).map
        (electCheckpointPublisherForSlot blake3 roster seed)).Perm (roster.map some) ∧
      (2 ≤ roster.length → electCheckpointPublisherForSlot blake3 roster seed slot ≠
        electCheckpointPublisherForSlot blake3 roster seed (slot + 1)) := by
  cases empty : roster.isEmpty with
  | true =>
    rw [List.isEmpty_iff] at empty
    simp [empty]
  | false =>
    have pool := canonicalRoster_perm distinct
    obtain ⟨base, publisher⟩ : ∃ base, ∀ slot, electCheckpointPublisherForSlot blake3 roster
        seed slot = (canonicalRoster roster)[(base + slot) % roster.length]? := by
      refine ⟨((seededLcg blake3 seed checkpointerSalt).below roster.length).1, fun slot => ?_⟩
      rw [electCheckpointPublisherForSlot, empty, if_neg (by simp)]
      dsimp only
      rw [pool.length_eq, Nat.add_mod_mod]
    constructor
    · have looked : (List.range roster.length).map (fun place => (canonicalRoster roster)[place]?) =
          (canonicalRoster roster).map some := by
        rw [← pool.length_eq]
        apply List.ext_getElem
        · simp
        · simp
      have slots : (List.range' slot roster.length).map (electCheckpointPublisherForSlot blake3
          roster seed) = ((List.range' (base + slot) roster.length).map (· % roster.length)).map
            fun place => (canonicalRoster roster)[place]? := by
        rw [← List.map_add_range', List.map_map, List.map_map]
        exact List.map_congr_left fun slot _ => publisher slot
      rw [slots]
      refine ((map_mod_range'_perm _ _).map _).trans ?_
      rw [looked]
      exact pool.map some
    · intro several same
      rw [publisher, publisher, List.getElem?_inj] at same
      · have step := Nat.sub_mod_eq_zero_of_mod_eq same.symm
        rw [show base + (slot + 1) - (base + slot) = 1 by omega,
          Nat.mod_eq_of_lt (by omega)] at step
        cases step
      · rw [pool.length_eq]
        exact Nat.mod_lt _ (by omega)
      · exact pool.nodup_iff.mpr distinct

/-- Three peers publish in three slots. -/
theorem three_publishers_rotate :
    ((List.range' 7 3).map (electCheckpointPublisherForSlot (fun _ => Bytes.fill 32 0)
        [Bytes.fill 32 3, Bytes.fill 32 1, Bytes.fill 32 2] (Bytes.fill 32 0))).Perm
      [some (Bytes.fill 32 3), some (Bytes.fill 32 1), some (Bytes.fill 32 2)] :=
  (publishers_rotate _ _ (by decide) 7).1

end DaemonNode.Assignment
