import DaemonNode.Consensus.Assignment
import DaemonNode.Consensus.Attestation

/-!
# The coordinator state

The value the coordinator's step transforms: the run configuration, the
lifecycle phase, the roster, and the fixed ring of stored rounds in which
evidence for a round accumulates. Unsigned 64-bit counters are natural
numbers; the places where the program adds to one without a check are in the
step functions.
-/

namespace DaemonNode.Coordinator

open Assignment (GlobalBatch)

/-- When a run terminates. -/
inductive StopCondition
  | tokens (target : Nat)
  | rounds (target : Nat)
  deriving DecidableEq, Repr

/-- The run configuration, as far as the step consumes it. -/
structure RunConfig where
  runId : String
  protoVersion : VhcProtoVersion
  envelopeHash : Hash
  requiredCapabilities : CapabilitySet
  /-- Healthy members needed to leave `waitingForMembers`. -/
  minPeers : UInt32
  maxPeers : UInt32
  warmupS : Nat
  roundTrainMaxS : Nat
  roundWitnessS : Nat
  (cooldownS epochRounds : Nat)
  /-- Rounds for which a straggle report excuses an absence. -/
  stallRoundsMax : UInt32
  globalBatch : GlobalBatch
  stop : StopCondition
  seqLen : Nat
  witnessTarget : UInt32
  /-- Record absences before a peer is dropped. -/
  kAbsences : UInt32
  authorized : List PeerId

/-- The run lifecycle phase. -/
inductive Phase
  | uninitialized
  | waitingForMembers
  | warmup
  | roundTrain
  | roundWitness
  | cooldown
  | finished
  | paused
  deriving DecidableEq, Repr

namespace Phase

/-- Whether the step treats the phase as halted. -/
def isHalted : Phase → Bool
  | uninitialized | finished | paused => true
  | _ => false

/-- Whether round evidence is meaningful in the phase. -/
def isRoundActive : Phase → Bool
  | roundTrain | roundWitness => true
  | _ => false

end Phase

/-- A roster member's liveness state. -/
inductive ClientState
  | healthy
  | dropped
  deriving DecidableEq, Repr

/-- A roster member. -/
structure Member where
  peer : PeerId
  irohId : IrohId
  throughputClass : ThroughputClass
  state : ClientState
  joinedEpoch : Nat
  /-- Consecutive record absences. -/
  absences : Nat
  /-- Highest round the member has heartbeated. -/
  lastSeenRound : Nat
  lastStraggleRound : Option Nat
  warmupReady : Bool
  lastSeenS : Nat
  deriving DecidableEq

namespace Member

/-- A fresh healthy member joining at an epoch. -/
def joining (peer : PeerId) (irohId : IrohId)
    (throughputClass : ThroughputClass) (epoch : Nat) : Member :=
  { peer := peer
    irohId := irohId
    throughputClass := throughputClass
    state := .healthy
    joinedEpoch := epoch
    absences := 0
    lastSeenRound := 0
    lastStraggleRound := none
    warmupReady := false
    lastSeenS := 0 }

def isHealthy (member : Member) : Bool :=
  member.state = .healthy

end Member

/-- Accumulated evidence for one round slot. -/
structure RoundState where
  round : Nat
  seed : Seed
  /-- Data cursor when the round opened. -/
  dataIndex : Nat
  batch : BatchWindow
  witnesses : List PeerId
  commitments : Std.TreeMap PeerId Commitment
  /-- Entries of the storage receipts received. -/
  receipts : List RecordEntry
  attestations : Std.TreeMap PeerId Attestation
  digests : Std.TreeMap PeerId StateDigest
  record : Option RoundRecord
  /-- Whether two peers reported different digests. -/
  desync : Bool
  roundOpen : Option RoundOpen

namespace RoundState

/-- An empty placeholder slot. -/
def empty : RoundState :=
  { round := 0
    seed := Bytes.fill 32 0
    dataIndex := 0
    batch := ⟨0, 0⟩
    witnesses := []
    commitments := ∅
    receipts := []
    attestations := ∅
    digests := ∅
    record := none
    desync := false
    roundOpen := none }

/-- A fresh slot opened for a round. -/
def opened (round : Nat) (seed : Seed) (dataIndex : Nat)
    (batch : BatchWindow) (witnesses : List PeerId) : RoundState :=
  { empty with round, seed, dataIndex, batch, witnesses }

end RoundState

/-- The number of slots in the ring. -/
def numStoredRounds : Nat := 16

/-- The fixed ring of stored rounds. -/
structure RoundRing where
  slots : Vector RoundState numStoredRounds

namespace RoundRing

def new : RoundRing := ⟨Vector.replicate numStoredRounds RoundState.empty⟩

def indexOf (round : Nat) : Fin numStoredRounds :=
  ⟨round % numStoredRounds, Nat.mod_lt _ (by decide)⟩

/-- The slot that currently holds a round. -/
def get (ring : RoundRing) (round : Nat) : Option RoundState :=
  let slot := ring.slots[indexOf round]
  if slot.round = round then some slot else none

/-- A stored round sits at its own index. -/
theorem get_eq_some_iff {ring : RoundRing} {round : Nat} {slot : RoundState} :
    ring.get round = some slot ↔ ring.slots[indexOf round] = slot ∧ slot.round = round := by
  unfold get
  constructor
  · intro held
    simp only [Option.ite_none_right_eq_some, Option.some.injEq] at held
    obtain ⟨round_eq, rfl⟩ := held
    exact ⟨rfl, round_eq⟩
  · rintro ⟨rfl, round_eq⟩
    exact if_pos round_eq

/-- Change a round's slot in place, if the ring holds the round. -/
def modify (ring : RoundRing) (round : Nat) (change : RoundState → RoundState) :
    RoundRing :=
  match ring.get round with
  | none => ring
  | some slot => ⟨ring.slots.set (indexOf round) (change slot)⟩

def install (ring : RoundRing) (slot : RoundState) : RoundRing :=
  ⟨ring.slots.set (indexOf slot.round) slot⟩

end RoundRing

structure CoordinatorState where
  config : RunConfig
  phase : Phase
  (epoch round dataIndex : Nat)
  seed : Seed
  /-- The roster, healthy and dropped members. -/
  roster : List Member
  /-- Joins admitted while the roster is frozen. -/
  pending : List Member
  rounds : RoundRing
  phaseStartS : Nat
  nowS : Nat
  /-- The round at which the current epoch's training began. -/
  (epochStartRound tokensDone roundsDone : Nat)
  pausedFrom : Option Phase
  maxReportedRound : Nat
  attestations : AttestationLedger

namespace CoordinatorState

/-- A new run waiting for members. -/
def new (config : RunConfig) (initialSeed : Seed) (nowS : Nat) :
    CoordinatorState :=
  { config := config
    phase := .waitingForMembers
    epoch := 0
    round := 0
    dataIndex := 0
    seed := initialSeed
    roster := []
    pending := []
    rounds := .new
    phaseStartS := nowS
    nowS := nowS
    epochStartRound := 0
    tokensDone := 0
    roundsDone := 0
    pausedFrom := none
    maxReportedRound := 0
    attestations := .new }

/-- The healthy roster members. -/
def healthy (state : CoordinatorState) : List Member :=
  state.roster.filter Member.isHealthy

/-- The number of healthy members, held in 32 bits. -/
def healthyCount (state : CoordinatorState) : Nat :=
  state.healthy.length % 2 ^ 32

def healthyPeerIds (state : CoordinatorState) : List PeerId :=
  (state.healthy.map Member.peer).insertionSort (· ≤ ·)

/-- Change the first roster member with the given identity. -/
def updateMember (peer : PeerId) (change : Member → Member) :
    List Member → List Member
  | [] => []
  | member :: roster =>
    if member.peer = peer then change member :: roster
    else member :: updateMember peer change roster

/-- Whether a peer is a healthy roster member. -/
def isHealthyMember (state : CoordinatorState) (peer : PeerId) : Bool :=
  state.roster.any fun member => decide (member.peer = peer) && member.isHealthy

end CoordinatorState

end DaemonNode.Coordinator
