import DaemonNode.Coordinator.Ledger
import DaemonNode.Proto.Blake3

/-!
# The coordinator refines the ledger

Each handler of the coordinator is a few ledger moves. The lemmas here say
which, handler by handler, and `tick_refines` collects them: seen through
`CoordinatorState.ledger`, every step of the program is a step of the ledger.
-/

namespace DaemonNode.Coordinator

open Machine
open Assignment (globalBatchAt)
open Word (Overflow)
open Ledger (Thins Opens Freezes upsertSeat)

def Member.seat (member : Member) : Seat := ⟨member.peer, member.isHealthy⟩

@[simp] theorem Member.seat_peer (member : Member) :
    member.seat.peer = member.peer := rfl

@[simp] theorem Member.seat_healthy (member : Member) :
    member.seat.healthy = member.isHealthy := rfl

/-- A slot without its evidence. -/
def RoundState.frame (slot : RoundState) : Frame :=
  { round := slot.round
    seed := slot.seed
    batch := slot.batch
    witnesses := slot.witnesses
    record := slot.record
    roundOpen := slot.roundOpen }

def RoundRing.frames (ring : RoundRing) : Fin numStoredRounds → Frame :=
  fun index => ring.slots[index].frame

open Member (seat)

def CoordinatorState.ledger (state : CoordinatorState) : Ledger :=
  { config := state.config
    phase := state.phase
    round := state.round
    dataIndex := state.dataIndex
    seed := state.seed
    seats := state.roster.map seat
    staged := state.pending.map seat
    frames := state.rounds.frames
    tokensDone := state.tokensDone
    roundsDone := state.roundsDone }

namespace RoundRing

theorem frames_set (ring : RoundRing) (index : Fin numStoredRounds) (slot : RoundState) :
    (RoundRing.mk (ring.slots.set index slot)).frames =
      Function.update ring.frames index slot.frame := by
  funext other
  by_cases same : other = index
  · subst same
    simp [frames]
  · have distinct : (index : Nat) ≠ other := fun equal => same (Fin.ext equal.symm)
    simp [frames, Function.update_of_ne same, Vector.getElem_set_ne, distinct]

theorem frames_modify {ring : RoundRing} {round : Nat}
    (held : ring.get round = some slot) (change : RoundState → RoundState) :
    (ring.modify round change).frames =
      Function.update ring.frames (indexOf round) (change slot).frame := by
  unfold modify
  rw [held]
  exact frames_set ring _ _

/-- The slot just installed is the one stored. -/
theorem get_install_self (ring : RoundRing) (slot : RoundState) :
    (ring.install slot).get slot.round = some slot := by
  rw [get_eq_some_iff]
  simp [install]

end RoundRing

theorem map_seat_updateMember (peer : PeerId) {change : Member → Member}
    (keeps : ∀ member, (change member).seat = member.seat) (roster : List Member) :
    (CoordinatorState.updateMember peer change roster).map seat = roster.map seat := by
  induction roster with
  | nil => rfl
  | cons member roster ih =>
    unfold CoordinatorState.updateMember
    split
    · simp [keeps]
    · simp [ih]

theorem map_seat_upsertMember (member : Member) (roster : List Member) :
    (upsertMember member roster).map seat = upsertSeat member.seat (roster.map seat) := by
  induction roster with
  | nil => rfl
  | cons existing roster ih =>
    by_cases same : existing.peer = member.peer
    · simp [upsertMember, upsertSeat, same]
    · simp [upsertMember, upsertSeat, same, ih]

namespace CoordinatorState

variable (state : CoordinatorState)

@[simp] theorem ledger_config : state.ledger.config = state.config := rfl

@[simp] theorem ledger_phase : state.ledger.phase = state.phase := rfl

@[simp] theorem ledger_seats :
    state.ledger.seats = state.roster.map seat := rfl

@[simp] theorem ledger_staged :
    state.ledger.staged = state.pending.map seat := rfl

theorem ledger_healthySeats : state.ledger.healthySeats = state.healthy.map seat := by
  simp only [Ledger.healthySeats, ledger, healthy, List.filter_map]
  rfl

@[simp] theorem ledger_healthyCount : state.ledger.healthyCount = state.healthyCount := by
  simp [Ledger.healthyCount, healthyCount, ledger_healthySeats]

@[simp] theorem ledger_healthyPeerIds : state.ledger.healthyPeerIds = state.healthyPeerIds := by
  simp only [Ledger.healthyPeerIds, healthyPeerIds, ledger_healthySeats, List.map_map]
  rfl

@[simp] theorem ledger_stopReached :
    state.ledger.stopReached = Coordinator.stopReached state := rfl

@[simp] theorem ledger_occupancy :
    state.ledger.occupancy = Coordinator.occupancy state.roster state.pending := by
  rw [Ledger.occupancy, ledger_healthySeats, List.length_map]
  simp [Coordinator.occupancy, healthy, ledger]

/-- The admission check for duplicates reads the ledger. -/
theorem activeDuplicate_iff_occupied (peer : PeerId) :
    activeDuplicate state.roster state.pending peer = true ↔ state.ledger.Occupied peer := by
  simp [activeDuplicate, Ledger.Occupied, ledger, seat]

theorem slots_toList :
    state.rounds.slots.toList =
      (List.finRange numStoredRounds).map fun index => state.rounds.slots[index] := by
  apply List.ext_getElem
  · simp
  · intro index inside _
    simp

/-- What a joiner is sent depends on the ledger alone. -/
theorem replayForward_eq_replay : replayForward state = state.ledger.replay := by
  have retained : state.ledger.retainedRecords =
      (state.rounds.slots.toList.filterMap RoundState.record).insertionSort
        fun left right => left.round ≤ right.round := by
    rw [slots_toList, List.filterMap_map]
    rfl
  have standing : state.ledger.standingOpen =
      if state.phase.isRoundActive then (state.rounds.get state.round).bind RoundState.roundOpen
      else none := by
    simp only [Ledger.standingOpen, Ledger.currentFrame, ledger, RoundRing.frames,
      RoundState.frame, RoundRing.get]
    congr 1
    split <;> simp_all
  rw [Ledger.replay, retained, standing]
  rfl

end CoordinatorState

open CoordinatorState (ledger)

section Handlers

variable {mode : Overflow} {prims : Primitives}
variable {state after : CoordinatorState} {outputs : List Output}

theorem andThen_eq_some_iff {first : Outcome} :
    first.andThen next = some (after, outputs) ↔
      ∃ middle earlier later, first = some (middle, earlier) ∧
        next middle = some (after, later) ∧ outputs = earlier ++ later := by
  unfold Outcome.andThen
  cases first with
  | none => simp
  | some result =>
    obtain ⟨middle, earlier⟩ := result
    cases continued : next middle with
    | none => simp [continued]
    | some final =>
      obtain ⟨final, later⟩ := final
      simp only [continued, Option.some.injEq, Prod.mk.injEq]
      constructor
      · rintro ⟨rfl, rfl⟩
        exact ⟨_, _, _, ⟨rfl, rfl⟩, continued, rfl⟩
      · rintro ⟨_, _, _, ⟨rfl, rfl⟩, reached, rfl⟩
        rw [continued] at reached
        simp_all

theorem idle_andThen (next : CoordinatorState → Outcome) :
    Outcome.andThen (some (state, [])) next = next state := by
  dsimp only [Outcome.andThen]
  cases next state <;> rfl

namespace Outcome

/-- Every result of a handler meets a postcondition. -/
def Yields (outcome : Outcome) (post : List Output → CoordinatorState → Prop) : Prop :=
  ∀ after outputs, outcome = some (after, outputs) → post outputs after

variable {post : List Output → CoordinatorState → Prop}

theorem Yields.trapped : Yields none post := nofun

theorem Yields.returned (holds : post outputs after) : Yields (some (after, outputs)) post := by
  rintro _ _ ⟨⟩
  exact holds

end Outcome

theorem openRound_eq_some (opened : openRound mode prims state = some (after, outputs)) :
    ∃ stop deadline,
      mode.add 64 state.dataIndex (globalBatchAt state.config.globalBatch state.round) = some stop ∧
      mode.add 64 state.nowS state.config.roundTrainMaxS = some deadline ∧
      after =
        { state with
            rounds := state.rounds.install
              { openedSlot prims state stop with
                  roundOpen := some (openingMessage prims state stop deadline) }
            phase := .roundTrain
            phaseStartS := state.nowS } ∧
      outputs =
        [.note (.phaseChanged state.phase .roundTrain),
          .publish (.roundOpen (openingMessage prims state stop deadline))] := by
  unfold openRound at opened
  split at opened
  · cases opened
  rename_i stop stop_eq
  split at opened
  · cases opened
  rename_i deadline deadline_eq
  cases opened
  refine ⟨stop, deadline, stop_eq, deadline_eq, ?_, rfl⟩
  congr 1
  -- changing the slot just installed installs the changed slot
  have installed := RoundRing.get_install_self state.rounds (openedSlot prims state stop)
  rw [RoundRing.modify, show state.round = (openedSlot prims state stop).round from rfl, installed]
  simp [RoundRing.install]

theorem openRound_opens (opened : openRound mode prims state = some (after, outputs)) :
    ∃ opening, Opens mode prims state.ledger opening after.ledger ∧
      outputs = [.note (.phaseChanged state.phase .roundTrain), .publish (.roundOpen opening)] := by
  obtain ⟨stop, deadline, stop_eq, _, rfl, rfl⟩ := openRound_eq_some opened
  refine ⟨openingMessage prims state stop deadline, ⟨rfl, rfl, rfl, stop_eq, ?_⟩, rfl⟩
  simp only [ledger]
  congr 1
  rw [RoundRing.install, RoundRing.frames_set]
  simp only [RoundState.frame, openedSlot, RoundState.opened,
    ← CoordinatorState.ledger_healthyPeerIds]
  rfl

/-- Absence accounting keeps seats and only drops members. -/
theorem accountAbsence_thins {config : RunConfig} {round : Nat} {present : List PeerId}
    {member accounted : Member}
    (account : accountAbsence mode config round present member = some accounted) :
    accounted.peer = member.peer ∧ (accounted.isHealthy = true → member.isHealthy = true) := by
  unfold accountAbsence at account
  split at account
  · cases account
    exact ⟨rfl, id⟩
  rename_i healthy
  have healthy : member.isHealthy = true := by simpa using healthy
  refine ⟨?_, fun _ => healthy⟩
  split at account
  · cases account
    rfl
  split at account
  · cases account
    rfl
  · obtain ⟨absences, _, rfl⟩ := Option.map_eq_some_iff.mp account
    split <;> rfl

theorem silent_dropped (peers : List PeerId) :
    Silent (peers.map fun peer => .note (.dropped peer)) := by
  intro output member
  obtain ⟨peer, _, rfl⟩ := List.mem_map.mp member
  rfl

theorem freezeRound_eq_some (frozen : freezeRound mode prims state slot = some (after, outputs)) :
    ∃ accounted roundsDone nextRound,
      state.roster.mapM (accountAbsence mode state.config state.round
        ((committedEntries prims slot state.roster).map RecordEntry.peer)) = some accounted ∧
      mode.add 64 state.roundsDone 1 = some roundsDone ∧
      mode.add 64 state.round 1 = some nextRound ∧
      after = frozenState prims state slot accounted roundsDone nextRound ∧
      outputs =
        ((droppedPeers state.roster accounted).map fun peer =>
          .note (.dropped peer)) ++
          [.publish (.roundRecord (frozenRecord prims state slot accounted))] := by
  unfold freezeRound at frozen
  dsimp only at frozen
  split at frozen
  · cases frozen
  rename_i accounted accounted_eq
  split at frozen
  · cases frozen
  rename_i roundsDone roundsDone_eq
  split at frozen
  · cases frozen
  rename_i nextRound nextRound_eq
  cases frozen
  exact ⟨accounted, roundsDone, nextRound, accounted_eq, roundsDone_eq, nextRound_eq, rfl, rfl⟩

theorem freezeRound_freezes (witnessing : state.phase = .roundWitness)
    (held : currentSlot state = some slot)
    (frozen : freezeRound mode prims state slot = some (after, outputs)) :
    ∃ record drops, Freezes mode prims state.ledger record after.ledger ∧
      Silent drops ∧ outputs = drops ++ [.publish (.roundRecord record)] := by
  obtain ⟨accounted, roundsDone, nextRound, accounted_eq, roundsDone_eq,
    nextRound_eq, rfl, rfl⟩ := freezeRound_eq_some frozen
  obtain ⟨slot_eq, round_eq⟩ := RoundRing.get_eq_some_iff.mp held
  have frame_eq : state.ledger.currentFrame = slot.frame := by
    rw [← slot_eq]
    rfl
  have thins : Thins (state.roster.map seat) (accounted.map seat) := by
    unfold Thins
    rw [List.forall₂_map_left_iff, List.forall₂_map_right_iff]
    exact (Lists.mapM_eq_some_iff_forall₂.mp accounted_eq).imp
      fun _ _ account => accountAbsence_thins account
  refine ⟨frozenRecord prims state slot accounted, _,
    ⟨witnessing, ?_, rfl, ?_, thins, roundsDone_eq, nextRound_eq, ?_⟩,
    silent_dropped _, rfl⟩
  · rw [frame_eq]
    exact round_eq
  · rw [frame_eq]
    rfl
  · rw [frame_eq]
    simp only [ledger, frozenState]
    congr 1
    exact RoundRing.frames_modify held _

/-- What follows a frozen round: nothing more is published than the opening
of the next round, and the counters stay. -/
theorem decideNext_eq_some (decided : decideNext mode prims state = some (after, outputs)) :
    after.round = state.round ∧ after.roundsDone = state.roundsDone ∧
      publishedRecords outputs = [] ∧
      (after.phase = .cooldown ∨ after.phase = .roundTrain) := by
  unfold decideNext at decided
  split at decided
  · cases decided
    exact ⟨rfl, rfl, rfl, .inl rfl⟩
  split at decided
  · cases decided
    exact ⟨rfl, rfl, rfl, .inl rfl⟩
  · obtain ⟨_, _, _, _, rfl, rfl⟩ := openRound_eq_some decided
    exact ⟨rfl, rfl, rfl, .inr rfl⟩

/-- What finalising a stored round does. -/
theorem finalizeRound_eq_some (held : currentSlot state = some slot)
    (finalized : finalizeRound mode prims state = some (after, outputs)) :
    ∃ accounted roundsDone nextRound later,
      state.roster.mapM (accountAbsence mode state.config state.round
        ((committedEntries prims slot state.roster).map RecordEntry.peer)) = some accounted ∧
      mode.add 64 state.roundsDone 1 = some roundsDone ∧
      mode.add 64 state.round 1 = some nextRound ∧
      decideNext mode prims
        (frozenState prims state slot accounted roundsDone nextRound) = some (after, later) ∧
      outputs =
        ((droppedPeers state.roster accounted).map fun peer =>
          .note (.dropped peer)) ++
          [.publish (.roundRecord (frozenRecord prims state slot accounted))] ++
          later := by
  unfold finalizeRound at finalized
  rw [held] at finalized
  obtain ⟨frozen, earlier, later, freezing, decided, rfl⟩ := andThen_eq_some_iff.mp finalized
  obtain ⟨accounted, roundsDone, nextRound, accounted_eq, roundsDone_eq,
    nextRound_eq, rfl, rfl⟩ := freezeRound_eq_some freezing
  exact ⟨accounted, roundsDone, nextRound, later, accounted_eq, roundsDone_eq,
    nextRound_eq, decided, rfl⟩

/-- Every result of a handler is progress of a ledger. -/
abbrev Progresses (mode : Overflow) (prims : Primitives) (ledger : Ledger) (outcome : Outcome) :
    Prop :=
  outcome.Yields fun outputs after => Progress mode prims ledger outputs after.ledger

/-- A round is closed from the witness phase; without a stored round nothing
happens. -/
theorem finalizeRound_progress (witnessing : state.phase = .roundWitness) :
    Progresses mode prims state.ledger (finalizeRound mode prims state) := by
  unfold finalizeRound
  split
  · exact .returned .idle
  rename_i slot held
  intro after outputs finalized
  obtain ⟨frozen, earlier, later, freezing, decided, rfl⟩ := andThen_eq_some_iff.mp finalized
  obtain ⟨record, drops, freezes, silent, rfl⟩ := freezeRound_freezes witnessing held freezing
  have phase_eq : frozen.phase = .roundWitness := by
    rw [← witnessing]
    exact congrArg Ledger.phase freezes.after_eq
  rw [List.append_assoc]
  have cool : changePhase frozen .cooldown = some (after, later) →
      Progress mode prims state.ledger
        (drops ++ ([.publish (.roundRecord record)] ++ later)) after.ledger := by
    intro changed
    cases changed
    rw [phase_eq]
    exact .closing (.cool freezes silent)
  unfold decideNext at decided
  split at decided
  · exact cool decided
  rename_i running
  split at decided
  · exact cool decided
  rename_i continuing
  obtain ⟨opening, opens, rfl⟩ := openRound_opens decided
  rw [phase_eq]
  refine .closing (.advance freezes silent ?_ ?_ opens)
  · simpa using running
  · rw [CoordinatorState.ledger_healthyCount]
    exact Nat.le_of_not_lt fun below => continuing (.inr below)

theorem maybeFinalize_progress :
    Progresses mode prims state.ledger (maybeFinalize mode prims state) := by
  unfold maybeFinalize
  split
  · rename_i evidenced
    exact finalizeRound_progress evidenced.1
  · exact .returned .idle

/-- The move from training to witnessing, before further progress. -/
theorem toWitness_then (training : state.phase = .roundTrain) :
    Progresses mode prims state.ledger
      ((changePhase state .roundWitness).andThen (maybeFinalize mode prims)) := by
  intro after outputs advanced
  obtain ⟨middle, earlier, later, changed, finalized, rfl⟩ := andThen_eq_some_iff.mp advanced
  cases changed
  rw [training]
  exact .cons (.toWitness training) (maybeFinalize_progress _ _ finalized)

/-- The first round of an epoch opens from warmup with enough members. -/
theorem openEpochFirstRound_progress (warming : state.phase = .warmup)
    (enough : state.config.minPeers.toNat ≤ state.healthyCount) :
    Progresses mode prims state.ledger (openEpochFirstRound mode prims state) := by
  intro after outputs opened
  obtain ⟨opening, opens, rfl⟩ := openRound_opens opened
  simp only [warming]
  refine .single (.openFirst warming ?_ opens)
  rw [CoordinatorState.ledger_healthyCount]
  exact enough

theorem maybeExitWarmup_progress :
    Progresses mode prims state.ledger (maybeExitWarmup mode prims state) := by
  unfold maybeExitWarmup
  split
  · rename_i ready
    exact openEpochFirstRound_progress ready.1 ready.2.1
  · exact .returned .idle

/-- Decay while waiting drops members and touches nothing else. -/
theorem decayStaleMembers_eq_some (decayed : decayStaleMembers mode state = some (after, outputs)) :
    ∃ decay : Member → Member,
      (∀ member, decay member = member ∨ decay member = { member with state := .dropped }) ∧
      after = { state with roster := state.roster.map decay } ∧
      Silent outputs := by
  unfold decayStaleMembers at decayed
  split at decayed
  · cases decayed
    exact ⟨id, fun _ => .inl rfl, by rw [List.map_id], List.forall_mem_nil _⟩
  split at decayed
  · cases decayed
  dsimp only at decayed
  split at decayed
  · cases decayed
    exact ⟨id, fun _ => .inl rfl, by rw [List.map_id], List.forall_mem_nil _⟩
  · cases decayed
    refine ⟨_, fun member => ?_, rfl, silent_dropped _⟩
    unfold decayMember
    split
    · exact .inr rfl
    · exact .inl rfl

theorem thins_map_of_drops
    (drops : ∀ member, decay member = member ∨ decay member = { member with state := .dropped })
    (roster : List Member) :
    Thins (roster.map seat) ((roster.map decay).map seat) := by
  unfold Thins
  rw [List.map_map, List.forall₂_map_left_iff, List.forall₂_map_right_iff]
  refine List.forall₂_same.mpr fun member _ => ?_
  rcases drops member with kept | dropped
  · simp [kept]
  · simp [dropped, Member.isHealthy]

/-- Entering warmup clears readiness only. -/
theorem enterWarmup_progress (waiting : state.phase = .waitingForMembers)
    (enough : state.config.minPeers.toNat ≤ state.healthyCount) :
    Progresses mode prims state.ledger (enterWarmup state) := by
  refine .returned ?_
  have seats : (state.roster.map fun member =>
      { member with warmupReady := false }).map seat = state.roster.map seat := by
    rw [List.map_map]
    rfl
  have entered : ledger
      { state with
          roster := state.roster.map fun member =>
            { member with warmupReady := false }
          phase := .warmup
          phaseStartS := state.nowS } =
        { state.ledger with phase := .warmup } := by
    simp only [ledger, seats]
  rw [entered, waiting]
  refine .single (.enterWarmup waiting ?_)
  rw [CoordinatorState.ledger_healthyCount]
  exact enough

theorem map_seat_drain (epoch : Nat) (pending roster : List Member) :
    (pending.foldl (fun roster member =>
        upsertMember { member with joinedEpoch := epoch } roster)
      roster).map Member.seat =
      (pending.map Member.seat).foldl (fun seats seat => upsertSeat seat seats)
        (roster.map Member.seat) := by
  induction pending generalizing roster with
  | nil => rfl
  | cons member pending ih =>
    simp only [List.foldl_cons, List.map_cons]
    rw [ih, map_seat_upsertMember]
    rfl

/-- The cooldown ends in the finish or in a drained roster. -/
theorem exitCooldown_progress (cooling : state.phase = .cooldown) :
    Progresses mode prims state.ledger (exitCooldown mode state) := by
  unfold exitCooldown
  split
  · rename_i stopped
    refine .returned ?_
    rw [cooling]
    exact .single (.conclude cooling stopped)
  · rename_i running
    split
    · exact .trapped
    rename_i epoch _
    refine .returned ?_
    have drained : ledger
        { state with
            epoch := epoch
            pending := []
            roster := state.pending.foldl
              (fun roster member =>
                upsertMember { member with joinedEpoch := epoch } roster)
              state.roster
            phase := .waitingForMembers
            phaseStartS := state.nowS } =
          { state.ledger with
              phase := .waitingForMembers
              staged := []
              seats := state.ledger.staged.foldl
                (fun seats seat => upsertSeat seat seats) state.ledger.seats } := by
      simp only [ledger, map_seat_drain, List.map_nil]
    rw [drained, cooling]
    exact .single (.drain cooling (by simpa using running))

/-- The early condition or the deadline is the only guard of a timed
transition. -/
theorem driveTime_progress : Progresses mode prims state.ledger (driveTime mode prims state) := by
  unfold driveTime
  split
  · rename_i waiting
    intro after outputs driven
    obtain ⟨middle, earlier, later, decayed, entered, rfl⟩ := andThen_eq_some_iff.mp driven
    obtain ⟨decay, drops, rfl, silent⟩ := decayStaleMembers_eq_some decayed
    refine .cons (.decay waiting (thins_map_of_drops drops _) silent) ?_
    split at entered
    · rename_i enough
      refine enterWarmup_progress ?_ enough _ _ entered
      exact waiting
    · cases entered
      exact .idle
  · rename_i warming
    split
    · rename_i below
      refine .returned ?_
      rw [warming]
      refine .single (.floorBreach warming ?_)
      rw [CoordinatorState.ledger_healthyCount]
      exact below
    · rename_i enough
      split
      · exact .trapped
      · exact openEpochFirstRound_progress warming (Nat.le_of_not_lt enough)
      · exact .returned .idle
  · rename_i training
    dsimp only
    split
    · exact .trapped
    · exact toWitness_then training
    · exact .returned .idle
  · rename_i witnessing
    dsimp only
    split
    · exact .trapped
    · exact finalizeRound_progress witnessing
    · exact .returned .idle
  · rename_i cooling
    split
    · exact .trapped
    · exact exitCooldown_progress cooling
    · exact .returned .idle
  all_goals exact .returned .idle

/-- A change to a member that keeps its seat is not seen by the ledger. -/
theorem updateMember_ledger (state : CoordinatorState) (peer : PeerId) {change : Member → Member}
    (keeps : ∀ member, (change member).seat = member.seat) :
    ledger { state with roster := CoordinatorState.updateMember peer change state.roster } =
      state.ledger := by
  simp only [ledger, map_seat_updateMember peer keeps]

theorem stampSigner_ledger (state : CoordinatorState) (signer : PeerId) :
    (stampSigner state signer).ledger = state.ledger :=
  updateMember_ledger state signer fun _ => rfl

/-- A rejected input leaves the ledger alone. -/
theorem reject_progress : Progresses mode prims state.ledger (reject state reason) :=
  .returned (.single (.silent (List.forall_mem_singleton.mpr rfl)))

/-- New evidence for a stored round is not seen by the ledger. -/
theorem evidence_ledger (state : CoordinatorState) (round : Nat)
    (keeps : ∀ slot, (change slot).frame = slot.frame) :
    ledger
      { state with rounds := state.rounds.modify round change } = state.ledger := by
  simp only [ledger]
  congr 1
  cases held : state.rounds.get round with
  | none => simp [RoundRing.modify, held]
  | some slot =>
    rw [RoundRing.frames_modify held, keeps]
    obtain ⟨rfl, _⟩ := RoundRing.get_eq_some_iff.mp held
    exact Function.update_eq_self _ _

/-- Evidence for the current round, and what it allows. -/
theorem evidence_progress (keeps : ∀ slot, (change slot).frame = slot.frame) :
    Progresses mode prims state.ledger (maybeAdvance mode prims (updateSlot state change)) := by
  rw [← evidence_ledger state state.round keeps]
  unfold maybeAdvance maybeWitness
  split
  · rename_i committed
    exact toWitness_then committed.1
  · rw [idle_andThen]
    exact maybeFinalize_progress

/-- A join seats, stages or only replays. -/
theorem onJoin_progress (running : state.phase.isHalted = false) :
    Progresses mode prims state.ledger (onJoin state signer version join) := by
  unfold onJoin
  split
  · rename_i duplicate
    refine .returned ?_
    rw [CoordinatorState.replayForward_eq_replay]
    exact .single (.rejoin running
      ((state.activeDuplicate_iff_occupied signer).mp (admitJoin_eq_duplicate duplicate)))
  · exact reject_progress
  · rename_i admitted
    obtain ⟨_, fresh, room⟩ := admitJoin_eq_ok admitted
    have unseated : ¬state.ledger.Occupied signer := by
      rw [← CoordinatorState.activeDuplicate_iff_occupied, fresh]
      simp
    rw [← CoordinatorState.ledger_occupancy] at room
    refine .returned ?_
    rw [CoordinatorState.replayForward_eq_replay]
    split
    · rename_i forming
      simp only [ledger, map_seat_upsertMember]
      exact .single (.seat forming unseated room)
    · rename_i frozen
      simp only [ledger, List.map_append, List.map_cons, List.map_nil]
      exact .single (.stage running frozen unseated room)

theorem onDigest_progress : Progresses mode prims state.ledger (onDigest state signer digest) := by
  unfold onDigest
  split
  · exact reject_progress
  split
  · exact reject_progress
  refine .returned ?_
  rw [evidence_ledger]
  case keeps => exact fun _ => rfl
  refine .single (.silent fun output member => ?_)
  obtain ⟨entry, _, rfl⟩ := List.mem_map.mp member
  rfl

theorem onCheckpointAttestation_progress :
    Progresses mode prims state.ledger (onCheckpointAttestation prims state wire) := by
  unfold onCheckpointAttestation
  split
  · exact reject_progress
  split
  · exact reject_progress
  · exact .returned .idle
  · exact .returned (.single (.silent (List.forall_mem_singleton.mpr rfl)))

/-- Every authenticated message in a running phase makes progress. -/
theorem dispatchPayload_progress (running : state.phase.isHalted = false) :
    Progresses mode prims state.ledger
      (dispatchPayload mode prims state signer version payload) := by
  rw [← stampSigner_ledger state signer]
  have running : (stampSigner state signer).phase.isHalted = false := running
  unfold dispatchPayload
  cases payload with
  | join join => exact onJoin_progress running
  | commitment | attestation | storageReceipt =>
    simp only [handlePayload, onCommitment, onAttestation, onReceipt]
    repeat' split
    any_goals exact reject_progress
    exact evidence_progress fun _ => rfl
  | digest digest => exact onDigest_progress
  | straggle straggle =>
    refine .returned ?_
    rw [updateMember_ledger]
    · exact .idle
    · exact fun _ => rfl
  | heartbeat heartbeat =>
    intro after outputs handled
    have progress := maybeExitWarmup_progress _ _ handled
    simp only [ledger] at progress
    rw [map_seat_updateMember] at progress
    · exact progress
    · exact fun _ => rfl
  | checkpointAttestation wire => exact onCheckpointAttestation_progress
  | roundOpen | roundRecord | finished => exact reject_progress

/-- An accepted operator intent pauses or resumes. -/
theorem onControl_refines :
    (onControl prims state request).Yields fun outputs after =>
      LedgerStep mode prims state.ledger (.control request) outputs after.ledger := by
  have rejected : ∀ reason, (reject state reason).Yields fun outputs after =>
      LedgerStep mode prims state.ledger (.control request) outputs after.ledger :=
    fun reason after outputs handled => .progress (reject_progress _ _ handled)
  unfold onControl
  split
  · exact rejected _
  rename_i verified
  split
  · exact rejected _
  rename_i sameRun
  split
  · exact rejected _
  rename_i authorized
  split
  · split
    · exact rejected _
    · rename_i running
      exact .returned (.progress (.single (.pause (by simpa using running))))
  · rename_i resume
    split
    · rename_i paused
      refine .returned ?_
      simp only [paused]
      exact .resume paused ⟨request, rfl, by simpa using verified,
        by simpa using sameRun, by simpa using authorized, resume⟩
    · exact rejected _

theorem tick_refines (stepped : tick mode prims state input = some (after, outputs)) :
    LedgerStep mode prims state.ledger input outputs after.ledger := by
  cases input with
  | clock now =>
    refine .progress ?_
    simp only [tick, onClock] at stepped
    have observed : (observeClock state now).ledger = state.ledger := rfl
    rw [← observed]
    split at stepped
    · exact reject_progress _ _ stepped
    · exact driveTime_progress _ _ stepped
  | message message =>
    refine .progress ?_
    simp only [tick, onMessage] at stepped
    repeat' split at stepped
    any_goals exact reject_progress _ _ stepped
    rename_i running
    exact dispatchPayload_progress (by simpa using running) _ _ stepped
  | control request => exact onControl_refines _ _ stepped

end Handlers

/-- A run of the coordinator from a fresh state. -/
abbrev TickRun (mode : Overflow) (prims : Primitives) (config : RunConfig)
    (seed : Seed) (nowS : Nat) :
    List (Step CoordinatorState Input Output) → CoordinatorState → Prop :=
  Run (graph (tick mode prims)) (CoordinatorState.new config seed nowS)

/-- A fresh ledger. -/
def Ledger.new (config : RunConfig) (seed : Seed) : Ledger :=
  { config := config
    phase := .waitingForMembers
    round := 0
    dataIndex := 0
    seed := seed
    seats := []
    staged := []
    frames := fun _ => RoundState.empty.frame
    tokensDone := 0
    roundsDone := 0 }

theorem ledger_new (config : RunConfig) (seed : Seed) (nowS : Nat) :
    (CoordinatorState.new config seed nowS).ledger = Ledger.new config seed := by
  simp only [ledger, CoordinatorState.new, Ledger.new, List.map_nil]
  congr 1
  funext index
  simp [RoundRing.frames, RoundRing.new]

/-- Every run of the coordinator is a run of the ledger with the same inputs
and outputs. -/
theorem run_refines (run : TickRun mode prims config seed nowS trace state) :
    Run (LedgerStep mode prims) (Ledger.new config seed)
      (trace.map (Step.map ledger)) state.ledger := by
  rw [← ledger_new config seed nowS]
  exact run.simulate fun _ _ _ _ stepped => tick_refines stepped

/-! ## Sample runs

Concrete inputs on which later modules execute the coordinator: the hash is
computed, and the frames are taken to be validly signed. -/

/-- The content hash, with every signature of the sample frames valid. -/
def samplePrimitives : Primitives :=
  { blake3 := Blake3.hashChunk
    verifyMessage := fun _ _ _ => true
    verifyControl := fun _ _ _ => true
    verifyAttestation := fun _ _ _ => true }

/-- A sample identity. -/
def samplePeer (byte : Byte) : PeerId := Bytes.fill 32 byte

/-- A run of two rounds for one to three peers, every phase ten seconds. -/
def sampleConfig : RunConfig :=
  { runId := "sample"
    protoVersion := 2
    envelopeHash := Bytes.fill 32 0
    requiredCapabilities := .new
    minPeers := 1
    maxPeers := 3
    warmupS := 10
    roundTrainMaxS := 10
    roundWitnessS := 10
    cooldownS := 10
    epochRounds := 0
    stallRoundsMax := 2
    globalBatch := ⟨4, 4, 0⟩
    stop := .rounds 2
    seqLen := 1
    witnessTarget := 0
    kAbsences := 3
    authorized := [samplePeer 9] }

def sampleStart (config : RunConfig) : CoordinatorState :=
  .new config (Bytes.fill 32 7) 0

def sampleFrame (signer : PeerId) (payload : VhcMessage) : SignedMessage :=
  ⟨2, payload, signer, Bytes.fill 64 0⟩

def sampleMessage (signer : PeerId) (payload : VhcMessage) : Input :=
  .message (sampleFrame signer payload)

def sampleRequest (peer : PeerId) : Join :=
  { runId := "sample"
    irohId := peer
    throughputClass := .c1
    capabilities := .new
    envelopeHash := none }

def sampleJoin (peer : PeerId) : Input :=
  sampleMessage peer (.join (sampleRequest peer))

/-- An operator intent. -/
def sampleControl (action : ControlAction) : Input :=
  .control ⟨⟨"sample", action⟩, samplePeer 9, Bytes.fill 64 0⟩

/-- Execute a list of inputs in a build that traps. -/
def sampleExec (config : RunConfig) (inputs : List Input) :
    Option (List (Step CoordinatorState Input Output) × CoordinatorState) :=
  exec (tick .trap samplePrimitives) (sampleStart config) inputs

theorem sampleRun_of_checked (config : RunConfig) (inputs : List Input)
    (holds : List (Step CoordinatorState Input Output) → CoordinatorState → Prop)
    (checked : ∃ result ∈ sampleExec config inputs, holds result.1 result.2) :
    ∃ trace state, TickRun .trap samplePrimitives config (Bytes.fill 32 7) 0 trace state ∧
      holds trace state :=
  Run.of_checked_exec _ _ inputs holds checked

end DaemonNode.Coordinator
