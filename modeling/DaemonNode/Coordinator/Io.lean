import DaemonNode.Coordinator.State

/-!
# Inputs and outputs of the coordinator

Time, signed messages and operator intents enter as inputs. The coordinator
answers with messages to publish, notices for its observer, and typed
rejections.
-/

namespace DaemonNode.Coordinator

/-- A single input. -/
inductive Input
  | clock (now : Nat)
  | message (message : SignedMessage)
  | control (request : Signed ControlRequest)
  deriving DecidableEq

/-- A state-change signal for the observer. -/
inductive Notice
  | phaseChanged (old new : Phase)
  /-- A join was admitted or staged. -/
  | admitted (peer : PeerId)
  | dropped (peer : PeerId)
  | digestMismatch (round : Nat) (peers : PeerId × PeerId)
  | finished
  | checkpointAttested (checkpoint : Hash) (tier : Nat) (signer : PeerId) (digestCount : Nat)
  deriving DecidableEq

/-- Why a join was declined. -/
inductive AdmissionReject
  | versionMismatch (expected got : VhcProtoVersion)
  | envelopeHashMismatch
  | missingCapabilities (missing : List Capability)
  | rosterFull
  | notAccepting (phase : Phase)
  | duplicatePeer
  | runIdMismatch
  deriving DecidableEq

/-- Why an input was rejected. -/
inductive Rejection
  | halted (phase : Phase)
  | badSignature
  | versionMismatch (expected got : VhcProtoVersion)
  | unauthorized
  | admission (reason : AdmissionReject)
  /-- The message is not accepted in this phase or direction. -/
  | unexpectedMessage
  | unknownPeer
  | notWitness
  /-- Evidence for a round that is not stored. -/
  | staleRound (current got : Nat)
  | runIdMismatch
  deriving DecidableEq

/-- A single output. -/
inductive Output
  | publish (message : VhcMessage)
  | note (notice : Notice)
  | reject (reason : Rejection)
  deriving DecidableEq

namespace Output

def published? : Output → Option VhcMessage
  | publish message => some message
  | _ => none

def record? : Output → Option RoundRecord
  | publish (.roundRecord record) => some record
  | _ => none

def roundOpen? : Output → Option RoundOpen
  | publish (.roundOpen opening) => some opening
  | _ => none

def admitted? : Output → Option PeerId
  | note (.admitted peer) => some peer
  | _ => none

/-- Whether an output reports that a round was opened for training. -/
def opensRound : Output → Bool
  | note (.phaseChanged _ .roundTrain) => true
  | _ => false

end Output

def publishedMessages (outputs : List Output) : List VhcMessage :=
  outputs.filterMap Output.published?

def publishedRecords (outputs : List Output) : List RoundRecord :=
  outputs.filterMap Output.record?

/-- The round openings published, in order. -/
def publishedOpens (outputs : List Output) : List RoundOpen :=
  outputs.filterMap Output.roundOpen?

/-- The peers reported as admitted, in order. -/
def admittedPeers (outputs : List Output) : List PeerId :=
  outputs.filterMap Output.admitted?

@[simp] theorem publishedRecords_append (first second : List Output) :
    publishedRecords (first ++ second) = publishedRecords first ++ publishedRecords second :=
  List.filterMap_append

@[simp] theorem publishedOpens_append (first second : List Output) :
    publishedOpens (first ++ second) = publishedOpens first ++ publishedOpens second :=
  List.filterMap_append

@[simp] theorem admittedPeers_append (first second : List Output) :
    admittedPeers (first ++ second) = admittedPeers first ++ admittedPeers second :=
  List.filterMap_append

@[simp] theorem publishedMessages_append (first second : List Output) :
    publishedMessages (first ++ second) = publishedMessages first ++ publishedMessages second :=
  List.filterMap_append

end DaemonNode.Coordinator
