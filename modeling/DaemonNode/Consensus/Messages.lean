import DaemonNode.Proto.Capability
import DaemonNode.Proto.Merkle

/-!
# Control-plane messages

The messages peers and the coordinator exchange, the signed frame they travel
in, and the cryptographic primitives the coordinator calls. Hashing and
signature verification are not part of the repository: they are the fields of
`Primitives`, a parameter of the model.
-/

namespace DaemonNode

open Merkle (SetCommitment)

inductive ThroughputClass
  | c1
  | c2
  | c3
  | c4
  deriving DecidableEq, Repr

/-- Where a committed payload can be fetched. -/
inductive Locator
  | storeKey (key : String)
  | blobTicket (ticket : String)
  deriving DecidableEq, Repr

/-- A half-open interval of batch identifiers. -/
@[ext] structure BatchWindow where
  /-- First batch, inclusive. -/
  start : Nat
  /-- Last batch, exclusive. -/
  stop : Nat
  deriving DecidableEq, Repr

/-- An element of a witness's verified set. -/
structure AttestEntry where
  peer : PeerId
  hash : Hash
  deriving DecidableEq

/-- An element of a round record or of a storage receipt. -/
structure RecordEntry where
  peer : PeerId
  hash : Hash
  size : Nat
  deriving DecidableEq

structure RoundOpen where
  round : Nat
  seed : Seed
  rosterDigest : Hash
  batch : BatchWindow
  deadlineUnixS : Nat
  deriving DecidableEq

/-- A trainer commits its sealed update. -/
structure Commitment where
  round : Nat
  payload : Hash
  size : Nat
  locators : List Locator
  deriving DecidableEq

/-- A witness commits to its verified set. -/
structure Attestation where
  round : Nat
  set : SetCommitment
  /-- The pairs themselves, when the witness sends them along. -/
  inline : Option (List AttestEntry)
  deriving DecidableEq

/-- Availability of payloads, as seen by a storage client. -/
structure StorageReceipt where
  round : Nat
  verified : List RecordEntry
  deriving DecidableEq

/-- The consensus artifact of a round. -/
structure RoundRecord where
  round : Nat
  set : SetCommitment
  drops : List PeerId
  nextSeed : Seed
  setLocator : Locator
  inline : Option (List RecordEntry)
  deriving DecidableEq

/-- A peer's state digest after a round. -/
structure Digest where
  round : Nat
  digest : StateDigest
  deriving DecidableEq

/-- The recovery status of a stalled peer. -/
inductive StraggleStatus
  | fetching
  | stalled
  | catchingUp
  deriving DecidableEq, Repr

/-- A stalled peer's report. -/
structure Straggle where
  round : Nat
  status : StraggleStatus
  deriving DecidableEq, Repr

/-- A peer asks for roster entry. -/
structure Join where
  runId : String
  irohId : IrohId
  throughputClass : ThroughputClass
  capabilities : CapabilitySet
  /-- The envelope the peer asserts it joins under. -/
  envelopeHash : Option Hash
  deriving DecidableEq

/-- A peer's checkpoint attestation, in wire form. -/
structure CheckpointAttestation where
  tier : Nat
  runId : Hash
  (epoch round : Nat)
  checkpoint : Hash
  digest : StateDigest
  signer : PeerId
  sig : Signature
  deriving DecidableEq

/-- A peer's liveness ping. -/
structure Heartbeat where
  round : Nat
  ready : Option Bool
  deriving DecidableEq, Repr

/-- The coordinator announces that the run completed. -/
structure Finished where
  rounds : Nat
  deriving DecidableEq, Repr

/-- The union of every control-plane message. -/
inductive VhcMessage
  | roundOpen (message : RoundOpen)
  | commitment (message : Commitment)
  | attestation (message : Attestation)
  | storageReceipt (message : StorageReceipt)
  | roundRecord (message : RoundRecord)
  | digest (message : Digest)
  | straggle (message : Straggle)
  | join (message : Join)
  | heartbeat (message : Heartbeat)
  | checkpointAttestation (message : CheckpointAttestation)
  | finished (message : Finished)
  deriving DecidableEq

/-- The control-plane protocol version. -/
abbrev VhcProtoVersion := UInt16

structure SignedMessage where
  version : VhcProtoVersion
  payload : VhcMessage
  signer : PeerId
  /-- Signature over version and payload. -/
  sig : Signature
  deriving DecidableEq

inductive ControlAction
  | pause
  | resume
  deriving DecidableEq, Repr

/-- An operator intent for one run. -/
structure ControlRequest where
  runId : String
  action : ControlAction
  deriving DecidableEq, Repr

/-- A value with the node that signed it. -/
structure Signed (Body : Type) where
  body : Body
  signer : PeerId
  sig : Signature
  deriving DecidableEq

/-- Which claim an attestation makes about a checkpoint. -/
inductive AttestationTier
  | digest
  | restore
  deriving DecidableEq, Repr

/-- The signed body of a checkpoint attestation. -/
structure AttestationBody where
  tier : AttestationTier
  runId : Hash
  (epoch round : Nat)
  checkpoint : Hash
  digest : StateDigest
  signer : PeerId
  deriving DecidableEq

/-- The cryptographic primitives the coordinator calls: the content hash, and
ed25519 verification over the canonical encoding of each kind of signed
value. -/
structure Primitives where
  blake3 : List Byte → Hash
  verifyMessage : PeerId → Signature → VhcProtoVersion × VhcMessage → Bool
  verifyControl : PeerId → Signature → ControlRequest → Bool
  verifyAttestation : PeerId → Signature → AttestationBody → Bool

/-- Whether the frame's signature verifies under its embedded signer. -/
def SignedMessage.verify (prims : Primitives) (message : SignedMessage) : Bool :=
  prims.verifyMessage message.signer message.sig (message.version, message.payload)

/-- Whether the intent's signature verifies under its embedded signer. -/
def Signed.verify (prims : Primitives) (request : Signed ControlRequest) : Bool :=
  prims.verifyControl request.signer request.sig request.body

end DaemonNode
