import DaemonNode.Coordinator.State

/-!
# The round-record commit rule

A peer's payload enters the record of a round when the peer committed to it
and there is evidence that it is available: a storage receipt, a quorum of
inline attestations, or a quorum on one root together with an opening that
rebuilds that root.
-/

namespace DaemonNode.Coordinator

open Assignment (witnessQuorum)

def holdsPair (entries : List AttestEntry) (peer : PeerId) (hash : Hash) : Bool :=
  entries.any fun entry => decide (entry.peer = peer) && decide (entry.hash = hash)

section

variable (prims : Primitives) (slot : RoundState)

/-- Whether a witness's inline attestation covers a pair. -/
def witnessInlineCovers (witness peer : PeerId) (hash : Hash) : Bool :=
  slot.attestations[witness]?.any fun attestation =>
    attestation.inline.any fun entries => holdsPair entries peer hash

/-- How many round witnesses attested each root. -/
def rootCounts : Std.TreeMap Root Nat :=
  slot.witnesses.foldl
    (fun counts witness =>
      match slot.attestations[witness]? with
      | none => counts
      | some attestation =>
        counts.insert attestation.set.root (counts.getD attestation.set.root 0 + 1))
    ∅

/-- The quorum of the round's witness set, whose size is held in 32 bits. -/
def slotQuorum : Nat :=
  witnessQuorum (slot.witnesses.length % 2 ^ 32)

/-- The smallest root attested by a quorum of the round's witnesses. -/
def quorumRoot : Option Root :=
  if slotQuorum slot = 0 then none
  else
    (rootCounts slot).toList.findSome? fun entry =>
      if slotQuorum slot ≤ entry.2 then some entry.1 else none

/-- The root that an inline opening rebuilds; the declared root is not
trusted. -/
def openingRoot (entries : List AttestEntry) : Root :=
  (Merkle.commitSet prims.blake3
    (entries.map fun entry => (entry.peer, entry.hash))).commitment.root

/-- Whether some inline opening rebuilds a root and holds a pair. -/
def openingPinsMembership (root : Root) (peer : PeerId) (hash : Hash) : Bool :=
  slot.attestations.toList.any fun entry =>
    entry.2.inline.any fun entries =>
      decide (openingRoot prims entries = root) && holdsPair entries peer hash

/-- Whether there is availability evidence for a pair in a round. -/
def hasEvidence (peer : PeerId) (hash : Hash) : Bool :=
  if slot.receipts.any fun entry =>
      decide (entry.peer = peer) && decide (entry.hash = hash) then
    true
  else if slotQuorum slot = 0 then false
  else if slotQuorum slot ≤
      (slot.witnesses.filter fun witness =>
        witnessInlineCovers slot witness peer hash).length % 2 ^ 32 then
    true
  else
    match quorumRoot slot with
    | none => false
    | some root => openingPinsMembership prims slot root peer hash

def committedEntry (member : Member) : Option RecordEntry :=
  match slot.commitments[member.peer]? with
  | none => none
  | some commitment =>
    if hasEvidence prims slot member.peer commitment.payload then
      some ⟨member.peer, commitment.payload, commitment.size⟩
    else none

/-- The committed set of a round, ordered by peer. -/
def committedEntries (roster : List Member) : List RecordEntry :=
  ((roster.filter Member.isHealthy).filterMap (committedEntry prims slot)).insertionSort
    fun left right => left.peer ≤ right.peer

/-- Whether every healthy member committed. -/
def allCommitted (roster : List Member) : Bool :=
  let healthy := roster.filter Member.isHealthy
  !healthy.isEmpty && healthy.all fun member => slot.commitments.contains member.peer

/-- Whether every submitted commitment is evidenced, and there is one. -/
def allEvidenced (roster : List Member) : Bool :=
  let submitted := (roster.filter Member.isHealthy).filterMap fun member =>
    slot.commitments[member.peer]?.map fun commitment => (member.peer, commitment)
  !submitted.isEmpty && submitted.all fun entry => hasEvidence prims slot entry.1 entry.2.payload

def inlineCovers (attestation : Attestation) (peer : PeerId) (hash : Hash) :
    Bool :=
  attestation.inline.any fun entries => holdsPair entries peer hash

/-- The inline set of an attestation rebuilds a root. -/
def rebuildsRoot (attestation : Attestation) (root : Root) : Bool :=
  attestation.inline.any fun entries => decide (openingRoot prims entries = root)

/-- A pair is evidenced: a receipt lists it; or a quorum of the witnesses
covers it inline; or a quorum attests one root, and a witness gives an opening
that rebuilds this root and holds the pair. `attested` is the attestation
that counts for each witness. -/
def Evidenced (receipts : List RecordEntry) (witnesses : List PeerId)
    (attested : PeerId → Option Attestation) (peer : PeerId) (hash : Hash) : Prop :=
  (∃ entry ∈ receipts, entry.peer = peer ∧ entry.hash = hash) ∨
  (witnessQuorum witnesses.length ≤ witnesses.countP fun witness =>
    (attested witness).any fun attestation => inlineCovers attestation peer hash) ∨
  ∃ root,
    (witnessQuorum witnesses.length ≤ witnesses.countP fun witness =>
      (attested witness).any fun attestation =>
        decide (attestation.set.root = root)) ∧
    ∃ witness ∈ witnesses, ∃ attestation, attested witness = some attestation ∧
      rebuildsRoot prims attestation root = true ∧
      inlineCovers attestation peer hash = true

def attestsRoot (root : Root) (witness : PeerId) : Bool :=
  slot.attestations[witness]?.any fun attestation =>
    decide (attestation.set.root = root)

end

theorem rootCounts_getD (slot : RoundState) (root : Root) :
    (rootCounts slot).getD root 0 = slot.witnesses.countP (attestsRoot slot root) := by
  -- the induction is on the witnesses, over any counts made before them
  suffices counted : ∀ (witnesses : List PeerId) (counts : Std.TreeMap Root Nat),
      (witnesses.foldl
        (fun counts witness =>
          match slot.attestations[witness]? with
          | none => counts
          | some attestation =>
            counts.insert attestation.set.root (counts.getD attestation.set.root 0 + 1))
        counts).getD root 0 =
      counts.getD root 0 + witnesses.countP (attestsRoot slot root) by
    exact (counted slot.witnesses ∅).trans (Nat.zero_add _)
  intro witnesses
  induction witnesses with
  | nil => simp
  | cons witness witnesses ih =>
    intro counts
    rw [List.foldl_cons, ih, List.countP_cons]
    cases found : slot.attestations[witness]? with
    | none => simp [attestsRoot, found]
    | some attestation =>
      simp only [attestsRoot, found, Option.any_some, decide_eq_true_eq,
        Std.TreeMap.getD_insert, Std.LawfulEqCmp.compare_eq_iff_eq]
      split
      · rename_i same
        rw [same]
        omega
      · omega

/-- A witness attests at most one root, so two roots share the witnesses. -/
theorem countP_attestsRoot_le (slot : RoundState) (different : left ≠ right) :
    slot.witnesses.countP (attestsRoot slot left) +
      slot.witnesses.countP (attestsRoot slot right) ≤ slot.witnesses.length := by
  rw [List.length_eq_countP_add_countP (attestsRoot slot left)]
  refine Nat.add_le_add_left (List.countP_mono_left ?_) _
  intro witness _ attested
  cases found : slot.attestations[witness]? with
  | none => simp [attestsRoot, found] at attested
  | some attestation =>
    simp only [attestsRoot, found, Option.any_some, decide_eq_true_eq] at attested
    simp [attestsRoot, found, attested, different.symm]

/-- A witness set that fits the counter has its own quorum. -/
theorem slotQuorum_eq (small : slot.witnesses.length < 2 ^ 32) :
    slotQuorum slot = witnessQuorum slot.witnesses.length := by
  rw [slotQuorum, Nat.mod_eq_of_lt small]

theorem quorumRoot_eq_some_iff (small : slot.witnesses.length < 2 ^ 32)
    (several : slot.witnesses ≠ []) :
    quorumRoot slot = some root ↔
      witnessQuorum slot.witnesses.length ≤ slot.witnesses.countP (attestsRoot slot root) := by
  have positive := List.length_pos_iff.mpr several
  have majority := Assignment.lt_two_mul_witnessQuorum positive
  have found : ∀ {root count}, (root, count) ∈ (rootCounts slot).toList →
      count = slot.witnesses.countP (attestsRoot slot root) := by
    intro root count entry
    rw [← rootCounts_getD, Std.TreeMap.getD_eq_getD_getElem?,
      Std.TreeMap.mem_toList_iff_getElem?_eq_some.mp entry]
    rfl
  have agreed : ∀ {root}, quorumRoot slot = some root →
      witnessQuorum slot.witnesses.length ≤ slot.witnesses.countP (attestsRoot slot root) := by
    intro root chosen
    unfold quorumRoot at chosen
    split at chosen
    · cases chosen
    obtain ⟨⟨other, count⟩, entry, picked⟩ := List.exists_of_findSome?_eq_some chosen
    split at picked
    · rename_i enough
      cases picked
      rw [slotQuorum_eq small] at enough
      rw [← found entry]
      exact enough
    · cases picked
  refine ⟨agreed, ?_⟩
  intro enough
  have counted : (rootCounts slot)[root]? =
      some (slot.witnesses.countP (attestsRoot slot root)) := by
    have getD_eq := rootCounts_getD slot root
    rw [Std.TreeMap.getD_eq_getD_getElem?] at getD_eq
    cases lookup : (rootCounts slot)[root]? with
    | none =>
      rw [lookup, Option.getD_none] at getD_eq
      omega
    | some count =>
      rw [lookup, Option.getD_some] at getD_eq
      rw [getD_eq]
  have some_root : (quorumRoot slot).isSome = true := by
    unfold quorumRoot
    rw [slotQuorum_eq small, if_neg (by omega), List.findSome?_isSome_iff]
    refine ⟨_, Std.TreeMap.mem_toList_iff_getElem?_eq_some.mpr counted, ?_⟩
    rw [if_pos enough]
    rfl
  obtain ⟨other, chosen⟩ := Option.isSome_iff_exists.mp some_root
  rw [chosen]
  by_contra different
  have shared := countP_attestsRoot_le slot
    (fun same : other = root => different (congrArg some same))
  have otherEnough := agreed chosen
  omega

theorem openingPinsMembership_iff (prims : Primitives)
    (witnessed : ∀ (peer : PeerId) (attestation : Attestation),
      slot.attestations[peer]? = some attestation → peer ∈ slot.witnesses)
    {hash : Hash} :
    openingPinsMembership prims slot root peer hash = true ↔
      ∃ witness ∈ slot.witnesses, ∃ attestation,
        slot.attestations[witness]? = some attestation ∧
        rebuildsRoot prims attestation root = true ∧
        inlineCovers attestation peer hash = true := by
  have split : ∀ attestation : Attestation,
      (attestation.inline.any fun entries =>
        decide (openingRoot prims entries = root) && holdsPair entries peer hash) =
      (rebuildsRoot prims attestation root && inlineCovers attestation peer hash) := by
    intro attestation
    cases found : attestation.inline <;> simp [rebuildsRoot, inlineCovers, found]
  unfold openingPinsMembership
  simp only [List.any_eq_true, Prod.exists, split, Bool.and_eq_true,
    Std.TreeMap.mem_toList_iff_getElem?_eq_some]
  constructor
  · rintro ⟨witness, attestation, found, opened⟩
    exact ⟨witness, witnessed witness attestation found, attestation, found, opened⟩
  · rintro ⟨witness, _, attestation, found, opened⟩
    exact ⟨witness, attestation, found, opened⟩

/-- A slot in which only witnesses attest has evidence for a pair exactly
when the pair is evidenced. -/
theorem hasEvidence_iff (prims : Primitives) (small : slot.witnesses.length < 2 ^ 32)
    (several : slot.witnesses ≠ [])
    (witnessed : ∀ (peer : PeerId) (attestation : Attestation),
      slot.attestations[peer]? = some attestation → peer ∈ slot.witnesses)
    (peer : PeerId)
    (hash : Hash) :
    hasEvidence prims slot peer hash = true ↔
      Evidenced prims slot.receipts slot.witnesses
        (fun witness => slot.attestations[witness]?) peer hash := by
  have positive := List.length_pos_iff.mpr several
  have majority := Assignment.lt_two_mul_witnessQuorum positive
  have covering : (slot.witnesses.filter fun witness =>
      witnessInlineCovers slot witness peer hash).length % 2 ^ 32 =
      slot.witnesses.countP fun witness =>
        slot.attestations[witness]?.any fun attestation =>
          inlineCovers attestation peer hash := by
    rw [Nat.mod_eq_of_lt ((List.length_filter_le _ _).trans_lt small),
      ← List.countP_eq_length_filter]
    rfl
  have pinned : (match quorumRoot slot with
      | none => false
      | some root => openingPinsMembership prims slot root peer hash) = true ↔
      ∃ root, quorumRoot slot = some root ∧
        openingPinsMembership prims slot root peer hash = true := by
    cases quorumRoot slot <;> simp
  unfold hasEvidence
  rw [slotQuorum_eq small, if_neg (by omega : ¬witnessQuorum _ = 0), covering]
  split
  · rename_i listed
    simp only [List.any_eq_true, Bool.and_eq_true, decide_eq_true_eq] at listed
    exact ⟨fun _ => .inl listed, fun _ => rfl⟩
  · rename_i unlisted
    simp only [List.any_eq_true, Bool.and_eq_true, decide_eq_true_eq] at unlisted
    split
    · rename_i covered
      exact ⟨fun _ => .inr (.inl covered), fun _ => rfl⟩
    · rename_i uncovered
      rw [pinned]
      simp only [quorumRoot_eq_some_iff small several, openingPinsMembership_iff prims witnessed]
      constructor
      · exact fun opened => .inr (.inr opened)
      · rintro (listed | covered | opened)
        · exact absurd listed unlisted
        · exact absurd covered uncovered
        · exact opened

/-- What a member contributes to the record. -/
theorem committedEntry_eq_some_iff :
    committedEntry prims slot member = some entry ↔
      member.peer = entry.peer ∧
        ∃ commitment, slot.commitments[entry.peer]? = some commitment ∧
          commitment.payload = entry.hash ∧ commitment.size = entry.size ∧
          hasEvidence prims slot entry.peer entry.hash = true := by
  unfold committedEntry
  constructor
  · intro contributed
    split at contributed
    · cases contributed
    rename_i commitment found
    split at contributed
    · rename_i evidenced
      cases contributed
      exact ⟨rfl, commitment, found, rfl, rfl, evidenced⟩
    · cases contributed
  · rintro ⟨peer_eq, commitment, found, payload_eq, size_eq, evidenced⟩
    rw [peer_eq, found]
    dsimp only
    rw [payload_eq, if_pos evidenced, size_eq]

/-- The committed set holds the evidenced commitments of the healthy
members. -/
theorem mem_committedEntries :
    entry ∈ committedEntries prims slot roster ↔
      (∃ member ∈ roster, member.isHealthy = true ∧ member.peer = entry.peer) ∧
        ∃ commitment, slot.commitments[entry.peer]? = some commitment ∧
          commitment.payload = entry.hash ∧ commitment.size = entry.size ∧
          hasEvidence prims slot entry.peer entry.hash = true := by
  unfold committedEntries
  rw [List.mem_insertionSort, List.mem_filterMap]
  simp only [List.mem_filter, committedEntry_eq_some_iff, ← exists_and_right, and_assoc]

/-- The committed set of a roster of distinct peers ascends strictly. -/
theorem committedEntries_ascending (prims : Primitives)
    (distinct : (roster.map Member.peer).Nodup) :
    (committedEntries prims slot roster).Pairwise fun left right =>
      left.peer < right.peer := by
  apply Lists.pairwise_lt_insertionSort_key
  rw [List.pairwise_filterMap]
  have different := List.pairwise_map.mp distinct
  refine (different.filter _).imp ?_
  intro left right apart leftEntry leftCommitted rightEntry rightCommitted
  rw [← (committedEntry_eq_some_iff.mp leftCommitted).1,
    ← (committedEntry_eq_some_iff.mp rightCommitted).1]
  exact apart

end DaemonNode.Coordinator
