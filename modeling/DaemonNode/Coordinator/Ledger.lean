import DaemonNode.Coordinator.Tick
import DaemonNode.Lib.Machine

/-!
# The round ledger

The abstract machine behind the coordinator. A ledger keeps what the rounds
are about: the phase, the current round with its cursor and seed, who holds a
seat, who is staged, and what the ring says of each stored round apart from
the evidence it collects. Clocks, absence counters and evidence are left
out, so a ledger move that depends on them is nondeterministic.

`Move` lists the small moves of one step. `LedgerStep` composes them: a step
resumes a paused run, or makes moves, the last of which may close the current
round.
-/

namespace DaemonNode.Coordinator

open Assignment (globalBatchAt selectCommittee)
open Word (Overflow saturatingAdd saturatingMul)

/-- A seat of the roster. -/
structure Seat where
  peer : PeerId
  healthy : Bool
  deriving DecidableEq

/-- What a slot of the ring says, apart from the evidence it collects. -/
structure Frame where
  round : Nat
  seed : Seed
  batch : BatchWindow
  witnesses : List PeerId
  record : Option RoundRecord
  roundOpen : Option RoundOpen
  deriving DecidableEq

/-- The abstract state of a run. -/
structure Ledger where
  config : RunConfig
  phase : Phase
  (round dataIndex : Nat)
  seed : Seed
  seats : List Seat
  staged : List Seat
  frames : Fin numStoredRounds → Frame
  (tokensDone roundsDone : Nat)

namespace Ledger

section

variable (prims : Primitives) (ledger : Ledger)

def healthySeats : List Seat :=
  ledger.seats.filter Seat.healthy

/-- The number of healthy seats, held in 32 bits. -/
def healthyCount : Nat :=
  ledger.healthySeats.length % 2 ^ 32

/-- The sorted holders of healthy seats. -/
def healthyPeerIds : List PeerId :=
  (ledger.healthySeats.map Seat.peer).insertionSort (· ≤ ·)

/-- The witness set drawn for the current round. -/
def committeeWitnesses : List PeerId :=
  (selectCommittee prims.blake3 ledger.healthyPeerIds ledger.seed
    ledger.config.witnessTarget.toNat).witnesses

/-- The batch size of the current round. -/
def batchSize : Nat :=
  globalBatchAt ledger.config.globalBatch ledger.round

/-- Whether the stop condition is met. -/
def stopReached : Bool :=
  match ledger.config.stop with
  | .tokens target => decide (target ≤ ledger.tokensDone)
  | .rounds target => decide (target ≤ ledger.roundsDone)

/-- The frame at the current round's place in the ring. -/
def currentFrame : Frame :=
  ledger.frames (RoundRing.indexOf ledger.round)

/-- Whether a peer holds a healthy seat or is staged. -/
def Occupied (peer : PeerId) : Prop :=
  ⟨peer, true⟩ ∈ ledger.seats ∨ peer ∈ ledger.staged.map Seat.peer

/-- Healthy seats and staged joins together. -/
def occupancy : Nat :=
  ledger.healthySeats.length + ledger.staged.length

/-- The records the ring retains, ascending. -/
def retainedRecords : List RoundRecord :=
  ((List.finRange numStoredRounds).filterMap fun index =>
    (ledger.frames index).record).insertionSort fun left right => left.round ≤ right.round

def standingOpen : Option RoundOpen :=
  if ledger.phase.isRoundActive then
    if ledger.currentFrame.round = ledger.round then ledger.currentFrame.roundOpen
    else none
  else none

/-- What a joiner is sent. -/
def replay : List Output :=
  (ledger.retainedRecords.map fun record => .publish (.roundRecord record)) ++
    ledger.standingOpen.toList.map fun opening => .publish (.roundOpen opening)

end

/-- Replace the seat of a peer, or add one. -/
def upsertSeat (seat : Seat) : List Seat → List Seat
  | [] => [seat]
  | existing :: seats =>
    if existing.peer = seat.peer then seat :: seats
    else existing :: upsertSeat seat seats

/-- Seats only lose health. -/
def Thins (before after : List Seat) : Prop :=
  List.Forall₂
    (fun old new => new.peer = old.peer ∧ (new.healthy = true → old.healthy = true))
    before after

/-- The current round is opened for training. -/
structure Opens (mode : Overflow) (prims : Primitives) (before : Ledger)
    (opening : RoundOpen) (after : Ledger) : Prop where
  round_eq : opening.round = before.round
  seed_eq : opening.seed = before.seed
  start_eq : opening.batch.start = before.dataIndex
  /-- Its window ends one batch later. -/
  stop_eq : mode.add 64 before.dataIndex before.batchSize = some opening.batch.stop
  /-- The round's frame is installed afresh. -/
  after_eq : after =
    { before with
        phase := .roundTrain
        frames := Function.update before.frames (RoundRing.indexOf before.round)
          { round := before.round
            seed := before.seed
            batch := opening.batch
            witnesses := before.committeeWitnesses prims
            record := none
            roundOpen := some opening } }

/-- The record of the current round is frozen, and the next round becomes
current. -/
structure Freezes (mode : Overflow) (prims : Primitives) (before : Ledger)
    (record : RoundRecord) (after : Ledger) : Prop where
  phase_eq : before.phase = .roundWitness
  held : before.currentFrame.round = before.round
  round_eq : record.round = before.round
  nextSeed_eq : record.nextSeed = nextSeed prims before.currentFrame.seed before.round
  thins : Thins before.seats after.seats
  roundsDone_eq : mode.add 64 before.roundsDone 1 = some after.roundsDone
  nextRound_eq : mode.add 64 before.round 1 = some after.round
  after_eq : after =
    { before with
        seats := after.seats
        roundsDone := after.roundsDone
        round := after.round
        tokensDone := saturatingAdd 64 before.tokensDone
          (saturatingMul 64 before.batchSize before.config.seqLen)
        dataIndex := saturatingAdd 64 before.dataIndex before.batchSize
        seed := record.nextSeed
        frames := Function.update before.frames (RoundRing.indexOf before.round)
          { before.currentFrame with record := some record } }

theorem Opens.currentFrame_eq (opened : Opens mode prims before opening after) :
    after.currentFrame =
      { round := before.round
        seed := before.seed
        batch := opening.batch
        witnesses := before.committeeWitnesses prims
        record := none
        roundOpen := some opening } := by
  rw [opened.after_eq]
  exact Function.update_self _ _ _

theorem Opens.frames_of_ne (opened : Opens mode prims before opening after)
    (other : index ≠ RoundRing.indexOf before.round) :
    after.frames index = before.frames index := by
  rw [opened.after_eq]
  exact Function.update_of_ne other _ _

theorem Freezes.frame_eq (freezing : Freezes mode prims before record after) :
    after.frames (RoundRing.indexOf before.round) =
      { before.currentFrame with record := some record } := by
  rw [freezing.after_eq]
  exact Function.update_self _ _ _

theorem Freezes.frames_of_ne (freezing : Freezes mode prims before record after)
    (other : index ≠ RoundRing.indexOf before.round) :
    after.frames index = before.frames index := by
  rw [freezing.after_eq]
  exact Function.update_of_ne other _ _

end Ledger

/-- Outputs that publish nothing and report neither an admission nor a change
of phase. -/
def Output.isSilent : Output → Bool
  | .reject _ => true
  | .note (.dropped _) => true
  | .note (.digestMismatch _ _) => true
  | .note (.checkpointAttested _ _ _ _) => true
  | _ => false

def Silent (outputs : List Output) : Prop :=
  ∀ output ∈ outputs, output.isSilent = true

open Ledger

/-- The small moves of a ledger that do not close a round. -/
inductive Move (mode : Overflow) (prims : Primitives) :
    Ledger → List Output → Ledger → Prop
  /-- Nothing the ledger keeps changes. -/
  | silent {ledger outputs} : Silent outputs → Move mode prims ledger outputs ledger
  /-- Silent members decay while the run waits. -/
  | decay {ledger seats outputs} :
      ledger.phase = .waitingForMembers →
      Thins ledger.seats seats →
      Silent outputs →
      Move mode prims ledger outputs { ledger with seats := seats }
  | enterWarmup {ledger} :
      ledger.phase = .waitingForMembers →
      ledger.config.minPeers.toNat ≤ ledger.healthyCount →
      Move mode prims ledger
        [.note (.phaseChanged .waitingForMembers .warmup)]
        { ledger with phase := .warmup }
  | floorBreach {ledger} :
      ledger.phase = .warmup →
      ledger.healthyCount < ledger.config.minPeers.toNat →
      Move mode prims ledger
        [.note (.phaseChanged .warmup .waitingForMembers)]
        { ledger with phase := .waitingForMembers }
  | openFirst {ledger opening after} :
      ledger.phase = .warmup →
      ledger.config.minPeers.toNat ≤ ledger.healthyCount →
      Opens mode prims ledger opening after →
      Move mode prims ledger
        [.note (.phaseChanged .warmup .roundTrain), .publish (.roundOpen opening)]
        after
  | toWitness {ledger} :
      ledger.phase = .roundTrain →
      Move mode prims ledger
        [.note (.phaseChanged .roundTrain .roundWitness)]
        { ledger with phase := .roundWitness }
  | conclude {ledger} :
      ledger.phase = .cooldown →
      ledger.stopReached = true →
      Move mode prims ledger
        [.note (.phaseChanged .cooldown .finished),
          .publish (.finished ⟨ledger.roundsDone⟩), .note .finished]
        { ledger with phase := .finished }
  /-- The staged joins are seated for a new epoch. -/
  | drain {ledger} :
      ledger.phase = .cooldown →
      ledger.stopReached = false →
      Move mode prims ledger
        [.note (.phaseChanged .cooldown .waitingForMembers)]
        { ledger with
            phase := .waitingForMembers
            staged := []
            seats := ledger.staged.foldl (fun seats seat => upsertSeat seat seats) ledger.seats }
  | pause {ledger} :
      ledger.phase.isHalted = false →
      Move mode prims ledger
        [.note (.phaseChanged ledger.phase .paused)]
        { ledger with phase := .paused }
  /-- A join is seated at once. -/
  | seat {ledger peer} :
      ledger.phase = .waitingForMembers ∨ ledger.phase = .warmup →
      ¬ledger.Occupied peer →
      ledger.occupancy < ledger.config.maxPeers.toNat →
      Move mode prims ledger
        (.note (.admitted peer) :: ledger.replay)
        { ledger with seats := upsertSeat ⟨peer, true⟩ ledger.seats }
  /-- A join is staged while the roster is frozen. -/
  | stage {ledger peer} :
      ledger.phase.isHalted = false →
      ¬(ledger.phase = .waitingForMembers ∨ ledger.phase = .warmup) →
      ¬ledger.Occupied peer →
      ledger.occupancy < ledger.config.maxPeers.toNat →
      Move mode prims ledger
        (.note (.admitted peer) :: ledger.replay)
        { ledger with staged := ledger.staged ++ [⟨peer, true⟩] }
  /-- An active member replaces its session. -/
  | rejoin {ledger peer} :
      ledger.phase.isHalted = false →
      ledger.Occupied peer →
      Move mode prims ledger (.note (.admitted peer) :: ledger.replay) ledger

/-- The moves that close the current round. -/
inductive Closing (mode : Overflow) (prims : Primitives) :
    Ledger → List Output → Ledger → Prop
  /-- The run cools down after the round. -/
  | cool {ledger record frozen drops} :
      Freezes mode prims ledger record frozen →
      Silent drops →
      Closing mode prims ledger
        (drops ++ [.publish (.roundRecord record), .note (.phaseChanged .roundWitness .cooldown)])
        { frozen with phase := .cooldown }
  /-- The next round opens at once. -/
  | advance {ledger record frozen drops opening after} :
      Freezes mode prims ledger record frozen →
      Silent drops →
      frozen.stopReached = false →
      frozen.config.minPeers.toNat ≤ frozen.healthyCount →
      Opens mode prims frozen opening after →
      Closing mode prims ledger
        (drops ++ [.publish (.roundRecord record),
          .note (.phaseChanged .roundWitness .roundTrain),
          .publish (.roundOpen opening)])
        after

/-- An operator intent to resume that the run accepts. -/
def ResumeAccepted (prims : Primitives) (config : RunConfig) (input : Input) :
    Prop :=
  ∃ request, input = .control request ∧ request.verify prims = true ∧
    request.body.runId = config.runId ∧
    request.signer ∈ config.authorized ∧ request.body.action = .resume

/-- Moves in a row, the last of which may close the current round. -/
inductive Progress (mode : Overflow) (prims : Primitives) :
    Ledger → List Output → Ledger → Prop
  | moves {ledger outputs after} :
      Machine.Chain (Move mode prims) ledger outputs after →
      Progress mode prims ledger outputs after
  /-- The current round is closed last. -/
  | close {ledger moved middle closing after} :
      Machine.Chain (Move mode prims) ledger moved middle →
      Closing mode prims middle closing after →
      Progress mode prims ledger (moved ++ closing) after

inductive LedgerStep (mode : Overflow) (prims : Primitives) :
    Ledger → Input → List Output → Ledger → Prop
  | resume {ledger input} :
      ledger.phase = .paused →
      ResumeAccepted prims ledger.config input →
      LedgerStep mode prims ledger input
        [.note (.phaseChanged .paused .waitingForMembers)]
        { ledger with phase := .waitingForMembers }
  | progress {ledger input outputs after} :
      Progress mode prims ledger outputs after →
      LedgerStep mode prims ledger input outputs after

namespace Progress

theorem single (moved : Move mode prims ledger outputs after) :
    Progress mode prims ledger outputs after :=
  .moves (.single moved)

/-- Closing the current round is progress. -/
theorem closing (closed : Closing mode prims ledger outputs after) :
    Progress mode prims ledger outputs after := by
  simpa using Progress.close .nil closed

/-- A ledger that stays as it is makes progress. -/
theorem idle : Progress mode prims ledger [] ledger :=
  .moves .nil

theorem cons (moved : Move mode prims ledger first middle)
    (later : Progress mode prims middle rest after) :
    Progress mode prims ledger (first ++ rest) after := by
  cases later with
  | moves chain => exact .moves (.cons moved chain)
  | close chain closed =>
    rw [← List.append_assoc]
    exact .close (.cons moved chain) closed

/-- A property of the outputs so far and the ledger that survives each move
and each closing survives progress. -/
theorem accumulate (property : List Output → Ledger → Prop)
    (onMove : ∀ earlier ledger outputs after,
      property earlier ledger →
      Move mode prims ledger outputs after →
      property (earlier ++ outputs) after)
    (onClosing : ∀ earlier ledger outputs after,
      property earlier ledger →
      Closing mode prims ledger outputs after →
      property (earlier ++ outputs) after)
    (progress : Progress mode prims ledger outputs after) (holds : property earlier ledger) :
    property (earlier ++ outputs) after := by
  cases progress with
  | moves chain => exact chain.accumulate property onMove holds
  | close chain closed =>
    rw [← List.append_assoc]
    exact onClosing _ _ _ _ (chain.accumulate property onMove holds) closed

/-- An invariant of moves and closings is an invariant of progress. -/
theorem invariant (property : Ledger → Prop)
    (onMove : ∀ ledger outputs after,
      property ledger → Move mode prims ledger outputs after → property after)
    (onClosing : ∀ ledger outputs after,
      property ledger → Closing mode prims ledger outputs after → property after)
    (progress : Progress mode prims ledger outputs after)
    (holds : property ledger) :
    property after :=
  @accumulate _ _ _ _ _ [] (fun _ => property) (fun _ => onMove) (fun _ => onClosing) progress holds

end Progress

end DaemonNode.Coordinator
