import DaemonNode.Consensus.Attestation
import DaemonNode.Lib.Lists
import Mathlib.Data.List.MinMax

/-!
# The checkpoint a joiner restores from

Among the checkpoints with enough digest attestations the best is preferred: a restored one
before the others, then the one with more attestations, then the greater hash. The choice
does not depend on the order in which attestations and candidates came.
-/

namespace DaemonNode

open SignedAttestation (verify)

namespace AttestationLedger

variable (ledger : AttestationLedger) (checkpoint : Hash)

/-- Whether a checkpoint has a restore attestation. -/
def isRestoreAttested : Bool := 0 < ledger.count checkpoint .restore

/-- What candidates are compared by. -/
def rank : Bool ×ₗ Nat ×ₗ Hash :=
  toLex (ledger.isRestoreAttested checkpoint, toLex (ledger.count checkpoint .digest, checkpoint))

/-- Record attestations one by one. -/
def recordAll (prims : Primitives) (attestations : List SignedAttestation) :
    Option AttestationLedger :=
  attestations.foldlM (fun ledger attestation => (ledger.record prims attestation).map Prod.snd)
    ledger

end AttestationLedger

inductive JoinEligibility
  | eligible (digestAttestations : Nat)
  | ineligible (had need : Nat)
  deriving DecidableEq, Repr

def JoinEligibility.isEligible : JoinEligibility → Bool
  | .eligible _ => true
  | .ineligible _ _ => false

/-- The number of digest attestations that a joiner asks for. -/
structure AttestationPolicy where
  kDigest : Nat
  deriving DecidableEq, Repr

namespace AttestationPolicy

variable (policy : AttestationPolicy) (ledger : AttestationLedger)

def joinEligibility (checkpoint : Hash) : JoinEligibility :=
  let had := ledger.count checkpoint .digest
  if policy.kDigest ≤ had then .eligible had else .ineligible had policy.kDigest

/-- The greatest candidate that is eligible. Candidates that rank alike are one checkpoint. -/
def preferredCheckpoint (candidates : List Hash) : Option Hash :=
  (candidates.filter fun checkpoint =>
    (policy.joinEligibility ledger checkpoint).isEligible).argmax ledger.rank

/-- The choice among candidates that the ranking asks for. -/
@[mk_iff]
structure Prefers (candidates : List Hash) (chosen : Hash) : Prop where
  listed : chosen ∈ candidates
  eligible : policy.kDigest ≤ ledger.count chosen .digest
  greatest : ∀ candidate ∈ candidates, policy.kDigest ≤ ledger.count candidate .digest →
    ledger.rank candidate ≤ ledger.rank chosen

end AttestationPolicy

namespace AttestationLedger

variable {ledger other : AttestationLedger} {attestations others : List SignedAttestation}

/-- What makes two attestations the same. -/
def key (attestation : SignedAttestation) : Hash × AttestationTier × PeerId :=
  (attestation.body.checkpoint, attestation.body.tier, attestation.body.signer)

theorem mem_signers_iff :
    signer ∈ ledger.signers checkpoint tier ↔
      (checkpoint, tier, signer) ∈ ledger.entries.map key := by
  rw [signers, Lists.mem_destutter_ne, List.mem_insertionSort]
  simp [key, and_assoc]

theorem pairwise_signers (ledger : AttestationLedger) :
    (ledger.signers checkpoint tier).Pairwise (· < ·) :=
  Lists.pairwise_lt_destutter_ne Function.injective_id (List.pairwise_insertionSort _ _)

/-- The signers are those of the recorded keys. -/
theorem signers_eq (same : ∀ item, item ∈ other.entries.map key ↔ item ∈ ledger.entries.map key) :
    other.signers = ledger.signers := by
  funext checkpoint tier
  apply other.pairwise_signers.eq_of_mem_iff ledger.pairwise_signers
  intro signer
  rw [mem_signers_iff, mem_signers_iff, same]

/-- Recording adds the key, whether it was there before or not. -/
theorem mem_map_key_record (ledger : AttestationLedger)
    (valid : verify prims attestation = true) :
    ∃ fresh after, ledger.record prims attestation = some (fresh, after) ∧
      ∀ item, item ∈ after.entries.map key ↔ item ∈ (attestation :: ledger.entries).map key := by
  unfold record
  rw [valid, if_neg (by decide)]
  split
  · rename_i repeated
    refine ⟨false, ledger, rfl, ?_⟩
    have known : key attestation ∈ ledger.entries.map key := by
      simpa [key, and_assoc] using repeated
    intro item
    rw [List.map_cons, List.mem_cons, iff_or_self]
    rintro rfl
    exact known
  · refine ⟨true, _, rfl, ?_⟩
    intro item
    rw [List.map_append, List.mem_append, or_comm]
    simp

theorem mem_map_key_recordAll (ledger : AttestationLedger)
    (valid : ∀ attestation ∈ attestations, verify prims attestation = true) :
    ∃ after, ledger.recordAll prims attestations = some after ∧
      ∀ item, item ∈ after.entries.map key ↔
        item ∈ attestations.map key ∨ item ∈ ledger.entries.map key := by
  induction attestations generalizing ledger with
  | nil => exact ⟨ledger, rfl, by simp⟩
  | cons attestation attestations ih =>
    obtain ⟨own, rest⟩ := List.forall_mem_cons.mp valid
    obtain ⟨fresh, next, recorded, added⟩ := mem_map_key_record ledger own
    obtain ⟨after, later, members⟩ := ih next rest
    refine ⟨after, ?_, ?_⟩
    · rw [recordAll, List.foldlM_cons, recorded]
      exact later
    · intro item
      simp only [members, added, List.map_cons, List.mem_cons, or_left_comm, or_assoc]

end AttestationLedger

open AttestationLedger

theorem AttestationPolicy.preferredCheckpoint_eq_some_iff (policy : AttestationPolicy) :
    policy.preferredCheckpoint ledger candidates = some chosen ↔
      policy.Prefers ledger candidates chosen := by
  have eligible (checkpoint : Hash) : (policy.joinEligibility ledger checkpoint).isEligible ↔
      policy.kDigest ≤ ledger.count checkpoint .digest := by
    simp only [joinEligibility]
    split <;> simp [JoinEligibility.isEligible, *]
  rw [preferredCheckpoint, List.argmax_eq_some_iff]
  simp only [List.mem_filter, eligible, and_imp]
  constructor
  · rintro ⟨⟨listed, enough⟩, greatest, -⟩
    exact ⟨listed, enough, greatest⟩
  · rintro ⟨listed, enough, greatest⟩
    refine ⟨⟨listed, enough⟩, greatest, fun candidate member eligible above => ?_⟩
    have alike := le_antisymm above (greatest candidate member eligible)
    obtain rfl : chosen = candidate := congrArg (fun rank => (ofLex (ofLex rank).2).2) alike
    rfl

/-- Two receptions of the same attestations, in any order and number, count the same signers,
which are those of the attestations, and the same checkpoint is preferred from any listing of
the candidates. -/
theorem AttestationPolicy.preference_order_free
    (policy : AttestationPolicy)
    (prims : Primitives)
    (attestations others : List SignedAttestation)
    (valid : ∀ attestation ∈ attestations, verify prims attestation = true)
    (same : ∀ attestation, attestation ∈ others ↔ attestation ∈ attestations) :
    ∃ ledger other, new.recordAll prims attestations = some ledger ∧
      new.recordAll prims others = some other ∧
      (∀ checkpoint tier signer, signer ∈ ledger.signers checkpoint tier ↔
        ∃ attestation ∈ attestations, key attestation = (checkpoint, tier, signer)) ∧
      other.signers = ledger.signers ∧ other.count = ledger.count ∧
      ∀ candidates listed, listed.Perm candidates →
        policy.preferredCheckpoint other listed = policy.preferredCheckpoint ledger candidates ∧
        ∀ chosen, policy.preferredCheckpoint ledger candidates = some chosen ↔
          policy.Prefers ledger candidates chosen := by
  obtain ⟨ledger, recorded, members⟩ := mem_map_key_recordAll new valid
  obtain ⟨other, again, known⟩ := mem_map_key_recordAll new
    fun attestation member => valid attestation ((same attestation).mp member)
  have signers : other.signers = ledger.signers := by
    apply signers_eq
    intro item
    rw [known, members]
    simp only [List.mem_map, same]
  have counts : other.count = ledger.count := by
    unfold count
    rw [signers]
  have signed (checkpoint : Hash) (tier : AttestationTier) (signer : PeerId) :
      signer ∈ ledger.signers checkpoint tier ↔
        ∃ attestation ∈ attestations, key attestation = (checkpoint, tier, signer) := by
    rw [mem_signers_iff, members, List.mem_map]
    exact or_iff_left List.not_mem_nil
  refine ⟨ledger, other, recorded, again, signed, signers, counts, ?_⟩
  intro candidates listed rearranged
  refine ⟨?_, fun chosen => policy.preferredCheckpoint_eq_some_iff⟩
  ext chosen
  have ranks : other.rank = ledger.rank := by
    unfold rank isRestoreAttested
    rw [counts]
  simp only [policy.preferredCheckpoint_eq_some_iff, prefers_iff, counts, ranks,
    rearranged.mem_iff]

/-- The attestation of a sample signer at a tier. -/
def sampleSigned (tier : AttestationTier) (checkpoint signer : Byte) : SignedAttestation :=
  ⟨⟨tier, .fill 32 0, 0, 0, .fill 32 checkpoint, .fill 16 0, .fill 32 signer⟩, .fill 64 0⟩

/-- Attestations of two checkpoints that come in two orders, one of them twice. -/
theorem AttestationPolicy.preference_of_two_orders :
    let prims : Primitives :=
      ⟨fun _ => .fill 32 0, fun _ _ _ => true, fun _ _ _ => true, fun _ _ _ => true⟩
    let first := sampleSigned .digest 1 3
    let second := sampleSigned .digest 2 4
    ∃ ledger other, new.recordAll prims [first, second] = some ledger ∧
      new.recordAll prims [second, first, second] = some other ∧
      .fill 32 3 ∈ ledger.signers (.fill 32 1) .digest ∧
      .fill 32 4 ∉ ledger.signers (.fill 32 1) .digest ∧
      other.signers = ledger.signers ∧
      (AttestationPolicy.mk 1).preferredCheckpoint other [.fill 32 2, .fill 32 1] =
        (AttestationPolicy.mk 1).preferredCheckpoint ledger [.fill 32 1, .fill 32 2] := by
  intro prims first second
  obtain ⟨ledger, other, once, again, signed, signers, -, prefers⟩ :=
    AttestationPolicy.preference_order_free ⟨1⟩ prims [first, second] [second, first, second]
      (fun _ _ => rfl) (by grind)
  refine ⟨ledger, other, once, again, ?_, ?_, signers, (prefers _ _ (.swap _ _ _)).1⟩
  · exact (signed _ _ _).mpr ⟨first, List.mem_cons_self, rfl⟩
  · rw [signed]
    decide

end DaemonNode
