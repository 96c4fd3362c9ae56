import DaemonNode.Consensus.Messages

/-!
# The checkpoint-attestation ledger

Verified checkpoint attestations, at most one for each checkpoint, tier and
signer.
-/

namespace DaemonNode

namespace AttestationTier

def tag : AttestationTier → Nat
  | .digest => 0
  | .restore => 1

/-- Decode a wire tag; an unknown tag is an error. -/
def tryFrom : Nat → Option AttestationTier
  | 0 => some .digest
  | 1 => some .restore
  | _ => none

end AttestationTier

/-- A checkpoint attestation with its signature. -/
structure SignedAttestation where
  body : AttestationBody
  sig : Signature
  deriving DecidableEq

namespace SignedAttestation

/-- Decode the wire form; the signature is not checked here. -/
def fromWire (wire : CheckpointAttestation) : Option SignedAttestation :=
  (AttestationTier.tryFrom wire.tier).map fun tier =>
    { body :=
        { tier := tier
          runId := wire.runId
          epoch := wire.epoch
          round := wire.round
          checkpoint := wire.checkpoint
          digest := wire.digest
          signer := wire.signer }
      sig := wire.sig }

/-- Whether the inner signature verifies. -/
def verify (prims : Primitives) (attestation : SignedAttestation) : Bool :=
  prims.verifyAttestation attestation.body.signer attestation.sig attestation.body

end SignedAttestation

structure AttestationLedger where
  entries : List SignedAttestation
  deriving DecidableEq

namespace AttestationLedger

/-- An empty ledger. -/
def new : AttestationLedger := ⟨[]⟩

/-- Verify and record an attestation. `none` is a verification error, the
flag says whether the attestation was new. -/
def record (prims : Primitives) (ledger : AttestationLedger)
    (attestation : SignedAttestation) : Option (Bool × AttestationLedger) :=
  if !attestation.verify prims then none
  else if ledger.entries.any fun entry =>
      decide (entry.body.checkpoint = attestation.body.checkpoint) &&
        decide (entry.body.tier = attestation.body.tier) &&
        decide (entry.body.signer = attestation.body.signer) then
    some (false, ledger)
  else some (true, ⟨ledger.entries ++ [attestation]⟩)

/-- Distinct signers who attested a checkpoint at a tier, sorted. -/
def signers (ledger : AttestationLedger) (checkpoint : Hash)
    (tier : AttestationTier) : List PeerId :=
  (((ledger.entries.filter fun entry =>
      decide (entry.body.checkpoint = checkpoint) && decide (entry.body.tier = tier)).map
    fun entry => entry.body.signer).insertionSort (· ≤ ·)).destutter (· ≠ ·)

/-- The number of distinct signers, clamped to 32 bits. -/
def count (ledger : AttestationLedger) (checkpoint : Hash) (tier : AttestationTier) : Nat :=
  min (ledger.signers checkpoint tier).length (2 ^ 32 - 1)

end AttestationLedger

end DaemonNode
