import DaemonNode.Coordinator.Io

/-!
# Admission

The coordinator's half of join gating: run identity, protocol version,
envelope hash, required capabilities, phase, duplicates and capacity, in that
order. A previously dropped member may join again.
-/

namespace DaemonNode.Coordinator

/-- A join to evaluate. -/
structure JoinCandidate where
  peer : PeerId
  version : VhcProtoVersion
  join : Join
  /-- An asserted envelope hash; `none` skips the check. -/
  assertedHash : Option Hash

/-- The required capabilities must all be advertised. -/
def checkCapabilities (advertised required : CapabilitySet) :
    Except AdmissionReject Unit :=
  match advertised.missing required with
  | [] => .ok ()
  | missing => .error (.missingCapabilities missing)

/-- Whether a peer holds a healthy seat or a pending join. -/
def activeDuplicate (roster pending : List Member) (peer : PeerId) : Bool :=
  (roster.any fun member => decide (member.peer = peer) && member.isHealthy) ||
    pending.any fun member => decide (member.peer = peer)

/-- Healthy members and staged joins together. -/
def occupancy (roster pending : List Member) : Nat :=
  (roster.filter Member.isHealthy).length + pending.length

/-- Decide whether a candidate may join. -/
def admitJoin (config : RunConfig) (phase : Phase) (roster pending : List Member)
    (candidate : JoinCandidate) : Except AdmissionReject Unit :=
  if candidate.join.runId ≠ config.runId then .error .runIdMismatch
  else if candidate.version ≠ config.protoVersion then
    .error (.versionMismatch config.protoVersion candidate.version)
  else if candidate.assertedHash.any fun hash => decide (hash ≠ config.envelopeHash) then
    .error .envelopeHashMismatch
  else
    match checkCapabilities candidate.join.capabilities config.requiredCapabilities with
    | .error reason => .error reason
    | .ok () =>
      if phase.isHalted then .error (.notAccepting phase)
      else if activeDuplicate roster pending candidate.peer then .error .duplicatePeer
      else if config.maxPeers.toNat ≤ occupancy roster pending then .error .rosterFull
      else .ok ()

/-- An admitted candidate meets a running phase, holds no seat yet, and finds
room. -/
theorem admitJoin_eq_ok (admitted : admitJoin config phase roster pending candidate = .ok ()) :
    phase.isHalted = false ∧
      activeDuplicate roster pending candidate.peer = false ∧
      occupancy roster pending < config.maxPeers.toNat := by
  unfold admitJoin at admitted
  repeat' split at admitted
  any_goals cases admitted
  rename_i running fresh room
  exact ⟨by simpa using running, by simpa using fresh, by omega⟩

/-- A candidate turned away as a duplicate holds a seat or a pending join. -/
theorem admitJoin_eq_duplicate
    (declined : admitJoin config phase roster pending candidate = .error .duplicatePeer) :
    activeDuplicate roster pending candidate.peer = true := by
  unfold admitJoin at declined
  repeat' split at declined
  any_goals cases declined
  · rename_i checked
    unfold checkCapabilities at checked
    split at checked <;> cases checked
  · assumption

end DaemonNode.Coordinator
