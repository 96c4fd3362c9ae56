import DaemonNode.Proto.Bytes

/-!
# Certified per-run keys

A base machine identity certifies a fresh key for one execution: a run, an
epoch, a role, an incarnation and a module. Frames are signed with that key,
and a receiver checks the certificate before it accepts the sender.
-/

namespace DaemonNode

/-- The domain tag of a certificate body. -/
def certDomainV2 : String := "daemon-vhc/cert/2"

/-- The execution identity a certificate binds a per-run key to. -/
@[ext] structure CertScope where
  runId : Hash
  /-- The one epoch the binding is valid for. -/
  epoch : Nat
  role : String
  /-- The incarnation of the role instance. -/
  instanceId : Nat
  moduleHash : Hash
  deriving DecidableEq

/-- The signed body of a certificate. -/
structure RunKeyCertBody where
  domain : String
  scope : CertScope
  runKey : PeerId
  deriving DecidableEq

/-- A certificate: the body, its issuer and the issuer's signature. -/
structure RunKeyCertificate where
  body : RunKeyCertBody
  baseIdentity : PeerId
  sig : Signature
  deriving DecidableEq

/-- Why a certificate, or the sender it should certify, was refused. -/
inductive CertError
  | wrongDomain (got : String)
  | badChain
  | scopeMismatch
  | epochMismatch (epoch bound : Nat)
  | moduleMismatch
  | senderNotCertified
  | noCertifiedChain
  | revoked
  | seatSuperseded
  deriving DecidableEq

/-- The text of a refusal. -/
def CertError.display : CertError → String
  | .wrongDomain got => s!"certificate domain `{got}` is not `{certDomainV2}`"
  | .badChain => "certificate signature does not verify to the base identity"
  | .scopeMismatch => "certificate scope does not match the frame scope"
  | .epochMismatch epoch bound =>
    s!"frame epoch {epoch} is not the certificate's bound epoch {bound} " ++
      "(an epoch change reissues the certificate)"
  | .moduleMismatch => "certificate module hash does not match the frame module"
  | .senderNotCertified => "frame sender is not the certificate's certified run key"
  | .noCertifiedChain => "no certificate authenticates the frame sender for its scope/epoch"
  | .revoked => "the per-run key is revoked or its incarnation is superseded"
  | .seatSuperseded =>
    "the sender is not the seat claimant bound at the highest verified " ++
      "leadership term (a fenced coordinator)"

end DaemonNode
