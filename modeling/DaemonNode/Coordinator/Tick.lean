import DaemonNode.Coordinator.Admission
import DaemonNode.Coordinator.Commit
import DaemonNode.Lib.Word

/-!
# The coordinator step

`tick` consumes one input and returns the next state with the outputs of the
step. Handlers append their outputs to those before them; a handler has no
result when an unchecked sum overflows in a build that traps.
-/

namespace DaemonNode.Coordinator

open Assignment (globalBatchAt selectCommittee)
open Word (Overflow saturatingAdd saturatingMul)

/-- The result of a handler: the new state and the outputs it pushed. -/
abbrev Outcome := Option (CoordinatorState × List Output)

/-- Run a second handler on the state a first one left. -/
def Outcome.andThen (first : Outcome) (next : CoordinatorState → Outcome) :
    Outcome :=
  match first with
  | none => none
  | some (state, earlier) =>
    match next state with
    | none => none
    | some (final, later) => some (final, earlier ++ later)

variable (mode : Overflow) (prims : Primitives) (state : CoordinatorState)

/-- Keep the state and reject the input. -/
def reject (reason : Rejection) : Outcome :=
  some (state, [.reject reason])

/-- Enter a phase now. -/
def changePhase (phase : Phase) : Outcome :=
  some ({ state with phase := phase, phaseStartS := state.nowS },
    [.note (.phaseChanged state.phase phase)])

/-- Replace the roster entry of a peer, or append a new one. -/
def upsertMember (member : Member) : List Member → List Member
  | [] => [member]
  | existing :: roster =>
    if existing.peer = member.peer then member :: roster
    else existing :: upsertMember member roster

def currentSlot : Option RoundState :=
  state.rounds.get state.round

/-- Whether the run's stop condition is met. -/
def stopReached : Bool :=
  match state.config.stop with
  | .tokens target => decide (target ≤ state.tokensDone)
  | .rounds target => decide (target ≤ state.roundsDone)

/-- The seed of the round after `round`. -/
def nextSeed (seed : Seed) (round : Nat) : Seed :=
  prims.blake3 (seed.asBytes ++ toLeBytes 8 round)

def rosterDigest (peers : List PeerId) : Hash :=
  prims.blake3 (peers.flatMap Bytes.asBytes)

/-- The peers that were healthy in one roster and are not in the other. -/
def droppedPeers (before after : List Member) : List PeerId :=
  ((before.zip after).filter fun pair =>
    pair.1.isHealthy && !pair.2.isHealthy).map fun pair => pair.1.peer

/-- Whether a phase that began at `phaseStartS` is over: an early condition
holds, or its duration has passed. The deadline is only computed when the
early condition fails. -/
def phaseOver (early : Bool) (duration : Nat) : Option Bool :=
  if early then some true
  else
    (mode.add 64 state.phaseStartS duration).map fun deadline =>
      decide (deadline ≤ state.nowS)

/-- The opening of the current round, given the end of its window and its
deadline. -/
def openingMessage (stop deadline : Nat) : RoundOpen :=
  { round := state.round
    seed := state.seed
    rosterDigest := rosterDigest prims state.healthyPeerIds
    batch := ⟨state.dataIndex, stop⟩
    deadlineUnixS := deadline }

/-- The fresh slot of the current round, given the end of its window. -/
def openedSlot (stop : Nat) : RoundState :=
  RoundState.opened state.round state.seed state.dataIndex
    ⟨state.dataIndex, stop⟩
    (selectCommittee prims.blake3 state.healthyPeerIds state.seed
      state.config.witnessTarget.toNat).witnesses

/-- Open the current round for training: install its slot, retain the opening
in it, and publish the opening. -/
def openRound : Outcome :=
  match mode.add 64 state.dataIndex
      (globalBatchAt state.config.globalBatch state.round) with
  | none => none
  | some stop =>
    match mode.add 64 state.nowS state.config.roundTrainMaxS with
    | none => none
    | some deadline =>
      let opening := openingMessage prims state stop deadline
      some
        ({ state with
            rounds := (state.rounds.install (openedSlot prims state stop)).modify state.round
              fun slot => { slot with roundOpen := some opening }
            phase := .roundTrain
            phaseStartS := state.nowS },
          [.note (.phaseChanged state.phase .roundTrain), .publish (.roundOpen opening)])

/-- Mark the epoch's first training round and open it. -/
def openEpochFirstRound : Outcome :=
  openRound mode prims { state with epochStartRound := state.round }

/-- Whether every healthy member signalled readiness, and there is one. -/
def allWarmupReady : Bool :=
  !state.healthy.isEmpty && state.healthy.all Member.warmupReady

/-- Open the first round early once every member is ready. -/
def maybeExitWarmup : Outcome :=
  if state.phase = .warmup ∧ state.config.minPeers.toNat ≤ state.healthyCount ∧
      allWarmupReady state then
    openEpochFirstRound mode prims state
  else some (state, [])

/-- Enter warmup, clearing the readiness of a previous epoch. -/
def enterWarmup : Outcome :=
  changePhase
    { state with roster := state.roster.map fun member => { member with warmupReady := false } }
    .warmup

/-- A waiting member unheard for a whole window is dropped. -/
def decayMember (now phaseStart window : Nat) (member : Member) : Member :=
  if member.isHealthy ∧ window ≤ now - max member.lastSeenS phaseStart then
    { member with state := .dropped }
  else member

/-- Drop the members that stayed silent through the waiting window. -/
def decayStaleMembers : Outcome :=
  if state.config.kAbsences = 0 then some (state, [])
  else
    match mode.add 64 state.config.roundTrainMaxS state.config.roundWitnessS with
    | none => none
    | some span =>
      let window := saturatingMul 64 state.config.kAbsences.toNat span
      if window = 0 then some (state, [])
      else
        let roster := state.roster.map (decayMember state.nowS state.phaseStartS window)
        some ({ state with roster := roster },
          (droppedPeers state.roster roster).map fun peer =>
            .note (.dropped peer))

/-- Whether a recent straggle report excuses a member in a round. -/
def isStraggling (config : RunConfig) (round : Nat) (member : Member) : Bool :=
  member.lastStraggleRound.any fun reported =>
    decide (reported ≤ round) && decide (round - reported ≤ config.stallRoundsMax.toNat)

def accountAbsence (config : RunConfig) (round : Nat) (present : List PeerId) (member : Member) :
    Option Member :=
  if !member.isHealthy then some member
  else if member.peer ∈ present then some { member with absences := 0 }
  else if isStraggling config round member then some member
  else
    (mode.add 32 member.absences 1).map fun absences =>
      if 0 < config.kAbsences.toNat ∧ config.kAbsences.toNat ≤ absences then
        { member with absences := absences, state := .dropped }
      else { member with absences := absences }

/-- The record that freezes the current round, given the roster after absence
accounting. -/
def frozenRecord (slot : RoundState) (accounted : List Member) : RoundRecord :=
  let committed := committedEntries prims slot state.roster
  { round := state.round
    set := (Merkle.commitSet prims.blake3
      (committed.map fun entry => (entry.peer, entry.hash))).commitment
    drops := droppedPeers state.roster accounted
    nextSeed := nextSeed prims slot.seed state.round
    setLocator := .storeKey
      ("runs/" ++ state.config.runId ++ "/rounds/" ++ toString state.round ++ "/record-set.cbor")
    inline := some committed }

/-- The state after a round was frozen, given the accounted roster and the
advanced counters. -/
def frozenState (slot : RoundState) (accounted : List Member) (roundsDone nextRound : Nat) :
    CoordinatorState :=
  let record := frozenRecord prims state slot accounted
  let batch := globalBatchAt state.config.globalBatch state.round
  { state with
      roster := accounted
      rounds := state.rounds.modify state.round fun slot => { slot with record := some record }
      roundsDone := roundsDone
      tokensDone := saturatingAdd 64 state.tokensDone (saturatingMul 64 batch state.config.seqLen)
      dataIndex := saturatingAdd 64 state.dataIndex batch
      round := nextRound
      seed := record.nextSeed }

/-- Freeze the record of the current round from its slot, account absences,
and advance the cursor, the seed and the round. -/
def freezeRound (slot : RoundState) : Outcome :=
  let present := (committedEntries prims slot state.roster).map RecordEntry.peer
  match state.roster.mapM
      (accountAbsence mode state.config state.round present) with
  | none => none
  | some accounted =>
    match mode.add 64 state.roundsDone 1 with
    | none => none
    | some roundsDone =>
      match mode.add 64 state.round 1 with
      | none => none
      | some nextRound =>
        some
          (frozenState prims state slot accounted roundsDone nextRound,
            ((droppedPeers state.roster accounted).map fun peer =>
              .note (.dropped peer)) ++
              [.publish (.roundRecord (frozenRecord prims state slot accounted))])

/-- Decide what follows a frozen round: the cooldown, or the next round. -/
def decideNext : Outcome :=
  if stopReached state then changePhase state .cooldown
  else if (0 < state.config.epochRounds ∧
        state.config.epochRounds ≤ state.round - state.epochStartRound) ∨
      state.healthyCount < state.config.minPeers.toNat then
    changePhase state .cooldown
  else openRound mode prims state

def finalizeRound : Outcome :=
  match currentSlot state with
  | none => some (state, [])
  | some slot => (freezeRound mode prims state slot).andThen (decideNext mode prims)

/-- Finalise once every submitted commitment is evidenced. -/
def maybeFinalize : Outcome :=
  if state.phase = .roundWitness ∧
      (currentSlot state).any fun slot =>
        allEvidenced prims slot state.roster then
    finalizeRound mode prims state
  else some (state, [])

/-- Move to the witness phase once every healthy member committed. -/
def maybeWitness : Outcome :=
  if state.phase = .roundTrain ∧
      (currentSlot state).any fun slot => allCommitted slot state.roster then
    changePhase state .roundWitness
  else some (state, [])

/-- Advance early after new evidence. -/
def maybeAdvance : Outcome :=
  (maybeWitness state).andThen (maybeFinalize mode prims)

/-- Leave the cooldown: finish, or drain the pending joins into a new
epoch. -/
def exitCooldown : Outcome :=
  if stopReached state then
    (changePhase state .finished).andThen fun state =>
      some (state, [.publish (.finished ⟨state.roundsDone⟩), .note .finished])
  else
    match mode.add 64 state.epoch 1 with
    | none => none
    | some epoch =>
      changePhase
        { state with
            epoch := epoch
            pending := []
            roster := state.pending.foldl
              (fun roster member =>
                upsertMember { member with joinedEpoch := epoch } roster)
              state.roster }
        .waitingForMembers

/-- Time-driven phase transitions. -/
def driveTime : Outcome :=
  match state.phase with
  | .waitingForMembers =>
    (decayStaleMembers mode state).andThen fun state =>
      if state.config.minPeers.toNat ≤ state.healthyCount then enterWarmup state
      else some (state, [])
  | .warmup =>
    if state.healthyCount < state.config.minPeers.toNat then changePhase state .waitingForMembers
    else
      match phaseOver mode state (allWarmupReady state) state.config.warmupS with
      | none => none
      | some true => openEpochFirstRound mode prims state
      | some false => some (state, [])
  | .roundTrain =>
    let committable := (currentSlot state).any fun slot =>
      allCommitted slot state.roster
    match phaseOver mode state committable state.config.roundTrainMaxS with
    | none => none
    | some true => (changePhase state .roundWitness).andThen (maybeFinalize mode prims)
    | some false => some (state, [])
  | .roundWitness =>
    let evidenced := (currentSlot state).any fun slot =>
      allEvidenced prims slot state.roster
    match phaseOver mode state evidenced state.config.roundWitnessS with
    | none => none
    | some true => finalizeRound mode prims state
    | some false => some (state, [])
  | .cooldown =>
    match phaseOver mode state false state.config.cooldownS with
    | none => none
    | some true => exitCooldown mode state
    | some false => some (state, [])
  | .uninitialized | .finished | .paused => some (state, [])

/-- Note the time; the clock never runs backwards. -/
def observeClock (now : Nat) : CoordinatorState :=
  { state with nowS := max state.nowS now }

/-- A clock advance. -/
def onClock (now : Nat) : Outcome :=
  if state.phase.isHalted then reject (observeClock state now) (.halted state.phase)
  else driveTime mode prims (observeClock state now)

/-- Republish the retained records, ascending, then the standing opening of
the active round. -/
def replayForward : List Output :=
  let retained := (state.rounds.slots.toList.filterMap RoundState.record).insertionSort
    fun left right => left.round ≤ right.round
  let standing :=
    if state.phase.isRoundActive then (state.rounds.get state.round).bind RoundState.roundOpen
    else none
  (retained.map fun record => .publish (.roundRecord record)) ++
    standing.toList.map fun opening => .publish (.roundOpen opening)

/-- A join. An active member who joins again only replaces its session. -/
def onJoin (signer : PeerId) (version : VhcProtoVersion) (join : Join) : Outcome :=
  match admitJoin state.config state.phase state.roster state.pending
      ⟨signer, version, join, join.envelopeHash⟩ with
  | .error .duplicatePeer => some (state, .note (.admitted signer) :: replayForward state)
  | .error reason => reject state (.admission reason)
  | .ok () =>
    let member :=
      { Member.joining signer join.irohId join.throughputClass state.epoch with
          lastSeenS := state.nowS }
    let joined :=
      if state.phase = .waitingForMembers ∨ state.phase = .warmup then
        { state with roster := upsertMember member state.roster }
      else { state with pending := state.pending ++ [member] }
    some (joined, .note (.admitted signer) :: replayForward joined)

/-- Change the slot of the current round in place. -/
def updateSlot (change : RoundState → RoundState) : CoordinatorState :=
  { state with rounds := state.rounds.modify state.round change }

/-- Keep a peer's commitment, in place of an earlier one. -/
def RoundState.insertCommitment (signer : PeerId) (commitment : Commitment)
    (slot : RoundState) : RoundState :=
  { slot with commitments := slot.commitments.insert signer commitment }

/-- Keep a witness's attestation, in place of an earlier one. -/
def RoundState.insertAttestation (signer : PeerId) (attestation : Attestation)
    (slot : RoundState) : RoundState :=
  { slot with attestations := slot.attestations.insert signer attestation }

/-- Add a receipt entry unless the pair is already there. -/
def addReceipt (receipts : List RecordEntry) (entry : RecordEntry) :
    List RecordEntry :=
  if receipts.any fun known =>
      decide (known.peer = entry.peer) && decide (known.hash = entry.hash) then
    receipts
  else receipts ++ [entry]

/-- Keep the entries of a storage receipt. -/
def RoundState.insertReceipt (receipt : StorageReceipt) (slot : RoundState) :
    RoundState :=
  { slot with receipts := receipt.verified.foldl addReceipt slot.receipts }

/-- A trainer's commitment to the current round. -/
def onCommitment (signer : PeerId) (commitment : Commitment) : Outcome :=
  if !state.phase.isRoundActive then reject state .unexpectedMessage
  else if commitment.round ≠ state.round then
    reject state (.staleRound state.round commitment.round)
  else if !state.isHealthyMember signer then reject state .unknownPeer
  else maybeAdvance mode prims (updateSlot state (RoundState.insertCommitment signer commitment))

/-- A witness's attestation for the current round. -/
def onAttestation (signer : PeerId) (attestation : Attestation) : Outcome :=
  if !state.phase.isRoundActive then reject state .unexpectedMessage
  else if attestation.round ≠ state.round then
    reject state (.staleRound state.round attestation.round)
  else if !(state.rounds.get state.round).any fun slot =>
      slot.witnesses.contains signer then
    reject state .notWitness
  else maybeAdvance mode prims (updateSlot state (RoundState.insertAttestation signer attestation))

/-- A storage receipt for the current round; its signer is not consulted. -/
def onReceipt (receipt : StorageReceipt) : Outcome :=
  if !state.phase.isRoundActive then reject state .unexpectedMessage
  else if receipt.round ≠ state.round then reject state (.staleRound state.round receipt.round)
  else maybeAdvance mode prims (updateSlot state (RoundState.insertReceipt receipt))

/-- A state digest for a stored round; the first disagreeing peer is
reported. -/
def onDigest (signer : PeerId) (digest : Digest) : Outcome :=
  if !state.phase.isRoundActive then reject state .unexpectedMessage
  else
    match state.rounds.get digest.round with
    | none => reject state (.staleRound state.round digest.round)
    | some held =>
      let mismatch := held.digests.toList.find? fun entry =>
        decide (entry.2 ≠ digest.digest)
      some
        ({ state with
            rounds := state.rounds.modify digest.round fun slot =>
              { slot with
                  digests := slot.digests.insert signer digest.digest
                  desync := slot.desync || mismatch.isSome } },
          mismatch.toList.map fun entry =>
            .note (.digestMismatch digest.round (entry.1, signer)))

/-- A straggle report. -/
def onStraggle (signer : PeerId) (straggle : Straggle) : Outcome :=
  some
    ({ state with
        roster := CoordinatorState.updateMember signer
          (fun member =>
            { member with lastStraggleRound := some straggle.round })
          state.roster },
      [])

/-- A liveness ping; readiness can open the first round. -/
def onHeartbeat (signer : PeerId) (heartbeat : Heartbeat) : Outcome :=
  maybeExitWarmup mode prims
    { state with
        maxReportedRound := max state.maxReportedRound heartbeat.round
        roster := CoordinatorState.updateMember signer
          (fun member =>
            { member with
                lastSeenRound := max member.lastSeenRound heartbeat.round
                warmupReady := member.warmupReady || decide (heartbeat.ready = some true) })
          state.roster }

/-- Record a checkpoint attestation; only its inner signature counts. -/
def onCheckpointAttestation (wire : CheckpointAttestation) : Outcome :=
  match SignedAttestation.fromWire wire with
  | none => reject state .unexpectedMessage
  | some attestation =>
    match state.attestations.record prims attestation with
    | none => reject state .badSignature
    | some (false, ledger) => some ({ state with attestations := ledger }, [])
    | some (true, ledger) =>
      some
        ({ state with attestations := ledger },
          [.note (.checkpointAttested attestation.body.checkpoint
            attestation.body.tier.tag attestation.body.signer
            (ledger.count attestation.body.checkpoint .digest))])

/-- Stamp the signer as heard now. -/
def stampSigner (signer : PeerId) : CoordinatorState :=
  { state with
      roster := CoordinatorState.updateMember signer
        (fun member => { member with lastSeenS := state.nowS })
        state.roster }

/-- Hand an authenticated message to its handler. -/
def handlePayload (signer : PeerId) (version : VhcProtoVersion) : VhcMessage → Outcome
  | .join join => onJoin state signer version join
  | .commitment commitment => onCommitment mode prims state signer commitment
  | .attestation attestation => onAttestation mode prims state signer attestation
  | .storageReceipt receipt => onReceipt mode prims state receipt
  | .digest digest => onDigest state signer digest
  | .straggle straggle => onStraggle state signer straggle
  | .heartbeat heartbeat => onHeartbeat mode prims state signer heartbeat
  | .checkpointAttestation wire => onCheckpointAttestation prims state wire
  | .roundOpen _ | .roundRecord _ | .finished _ => reject state .unexpectedMessage

/-- Stamp the signer and dispatch an authenticated message. -/
def dispatchPayload (signer : PeerId) (version : VhcProtoVersion) (payload : VhcMessage) :
    Outcome :=
  handlePayload mode prims (stampSigner state signer) signer version payload

def onMessage (message : SignedMessage) : Outcome :=
  if message.version ≠ state.config.protoVersion then
    reject state (.versionMismatch state.config.protoVersion message.version)
  else if !message.verify prims then reject state .badSignature
  else if state.phase.isHalted then reject state (.halted state.phase)
  else dispatchPayload mode prims state message.signer message.version message.payload

/-- An operator intent. -/
def onControl (request : Signed ControlRequest) : Outcome :=
  if !request.verify prims then reject state .badSignature
  else if request.body.runId ≠ state.config.runId then reject state .runIdMismatch
  else if !state.config.authorized.contains request.signer then reject state .unauthorized
  else
    match request.body.action with
    | .pause =>
      if state.phase.isHalted then reject state (.halted state.phase)
      else changePhase { state with pausedFrom := some state.phase } .paused
    | .resume =>
      if state.phase = .paused then changePhase { state with pausedFrom := none } .waitingForMembers
      else reject state (.halted state.phase)

/-- Advance the coordinator by one input. -/
def tick : Input → Outcome
  | .clock now => onClock mode prims state now
  | .message message => onMessage mode prims state message
  | .control request => onControl prims state request

end DaemonNode.Coordinator
