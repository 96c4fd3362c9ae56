import DaemonNode.Coordinator.Evidence
import Mathlib.Algebra.Order.BigOperators.Group.List

/-!
# Silence

When nothing but the clock is heard, the run comes to rest: it finishes, or
it waits for members with too few of them left.

A clock either leaves the state but for the time, and then the deadline of
the phase has not passed, or it moves the run on. What it moves on to is
smaller in a measure made of the phase, of the rounds left to the stop
condition, or else the rounds for which the members can stay unheard, and,
while the slot of the active round still holds a commitment, of all that
closing this round can give back to the members it heard. The measure of a
state is thereby a bound on the clocks that a silent run from it can meet
past their deadlines before it rests.
-/

namespace DaemonNode.Coordinator

open Machine (Run Step exec exec_inputs graph)
open Word (Overflow)

/-- The rounds from `round` on in which a straggle report excuses a member. -/
def excusedRounds (config : RunConfig) (round : Nat) (member : Member) : Nat :=
  match member.lastStraggleRound with
  | none => 0
  | some reported => reported + config.stallRoundsMax.toNat + 1 - max reported round

/-- A bound on the rounds that a member stays healthy unheard. -/
def patience (config : RunConfig) (round : Nat) (member : Member) : Nat :=
  if member.isHealthy then
    config.kAbsences.toNat - member.absences + excusedRounds config round member + 1
  else 0

variable {round : Nat} {later index : Nat}

theorem patience_of_dropped (dropped : member.isHealthy = false) :
    patience config round member = 0 := by
  simp [patience, dropped]

theorem excusedRounds_succ_le (config : RunConfig) (round : Nat) (member : Member) :
    excusedRounds config (round + 1) member ≤ excusedRounds config round member := by
  unfold excusedRounds
  split <;> omega

/-- A used excuse is gone. -/
theorem excusedRounds_succ_lt (straggling : isStraggling config round member = true) :
    excusedRounds config (round + 1) member < excusedRounds config round member := by
  unfold isStraggling at straggling
  unfold excusedRounds
  split
  · simp_all
  · rename_i reported found
    simp only [found, Option.any_some, Bool.and_eq_true, decide_eq_true_eq] at straggling
    omega

theorem patience_succ_le (config : RunConfig) (round : Nat) (member : Member) :
    patience config (round + 1) member ≤ patience config round member := by
  have excused := excusedRounds_succ_le config round member
  unfold patience
  split <;> omega

/-- An unheard round uses up the patience of a healthy member. -/
theorem accountAbsence_patience
    (account : accountAbsence .trap config round [] member = some accounted) :
    patience config (round + 1) accounted ≤ patience config round member ∧
      (0 < config.kAbsences.toNat → member.isHealthy = true →
        patience config (round + 1) accounted < patience config round member) := by
  unfold accountAbsence at account
  split at account
  · rename_i dropped
    cases account
    refine ⟨patience_succ_le _ _ _, fun _ healthy => ?_⟩
    simp [healthy] at dropped
  rename_i healthy
  have healthy : member.isHealthy = true := by simpa using healthy
  rw [if_neg (List.not_mem_nil)] at account
  split at account
  · rename_i straggling
    cases account
    have used := excusedRounds_succ_lt straggling
    have less : patience config (round + 1) member < patience config round member := by
      simp only [patience, healthy, if_true]
      omega
    exact ⟨less.le, fun _ _ => less⟩
  · obtain ⟨absences, absences_eq, rfl⟩ := Option.map_eq_some_iff.mp account
    obtain ⟨_, rfl⟩ := Overflow.trap_add_eq_some_iff.mp absences_eq
    have excused := excusedRounds_succ_le config round member
    split
    · have left : patience config round member ≠ 0 := by
        simp [patience, healthy]
      rw [patience_of_dropped rfl]
      exact ⟨Nat.zero_le _, fun _ _ => Nat.pos_of_ne_zero left⟩
    · rename_i patient
      have counted : patience config (round + 1)
          { member with absences := member.absences + 1 } =
          config.kAbsences.toNat - (member.absences + 1) +
            excusedRounds config (round + 1) member + 1 :=
        if_pos healthy
      have before : patience config round member =
          config.kAbsences.toNat - member.absences + excusedRounds config round member + 1 :=
        if_pos healthy
      rw [counted, before]
      omega

/-- The patience of the members and of the joins still pending. -/
def endurance (state : CoordinatorState) : Nat :=
  (state.roster.map (patience state.config state.round)).sum +
    (state.pending.map (patience state.config state.round)).sum

/-- A change of each member that adds no patience adds none in all, and takes
some away if it does so for one member. -/
theorem sum_patience_le
    (related : List.Forall₂
      (fun old new => patience config later new ≤ patience config round old)
      before after) :
    (after.map (patience config later)).sum ≤ (before.map (patience config round)).sum := by
  apply List.Forall₂.sum_le_sum
  rw [List.forall₂_map_left_iff, List.forall₂_map_right_iff]
  exact related.flip

theorem sum_patience_lt
    (related : List.Forall₂
      (fun old new => patience config later new ≤ patience config round old ∧
        (old.isHealthy = true → patience config later new < patience config round old))
      before after)
    (populated : ∃ member ∈ before, member.isHealthy = true) :
    (after.map (patience config later)).sum < (before.map (patience config round)).sum := by
  induction related with
  | nil => simp at populated
  | @cons old new _ _ less rest ih =>
    simp only [List.map_cons, List.sum_cons]
    obtain ⟨member, onRoster, healthy⟩ := populated
    rcases List.mem_cons.mp onRoster with rfl | later
    · have others := sum_patience_le (rest.imp fun _ _ both => both.1)
      have used := less.2 healthy
      omega
    · have used := ih ⟨member, later, healthy⟩
      have kept := less.1
      omega

/-- An upsert adds at most the patience of the new member. -/
theorem sum_patience_upsertMember_le (config : RunConfig) (round : Nat) (member : Member)
    (roster : List Member) :
    ((upsertMember member roster).map (patience config round)).sum ≤
      (roster.map (patience config round)).sum + patience config round member := by
  induction roster with
  | nil => simp [upsertMember]
  | cons existing roster ih =>
    unfold upsertMember
    split
    · simp only [List.map_cons, List.sum_cons]
      omega
    · simp only [List.map_cons, List.sum_cons]
      omega

/-- Draining the pending joins adds at most their patience. -/
theorem sum_patience_drain_le (config : RunConfig) (round epoch : Nat)
    (pending roster : List Member) :
    ((pending.foldl
        (fun roster member =>
          upsertMember { member with joinedEpoch := epoch } roster)
        roster).map (patience config round)).sum ≤
      (roster.map (patience config round)).sum + (pending.map (patience config round)).sum := by
  induction pending generalizing roster with
  | nil => simp
  | cons member pending ih =>
    have seated := sum_patience_upsertMember_le config round
      { member with joinedEpoch := epoch } roster
    have drained := ih (upsertMember { member with joinedEpoch := epoch } roster)
    have same : patience config round { member with joinedEpoch := epoch } =
      patience config round member := rfl
    simp only [List.foldl_cons, List.map_cons, List.sum_cons]
    omega

/-- What a silent run uses up with every round it closes. -/
def budget (state : CoordinatorState) : Nat :=
  match state.config.stop with
  | .rounds target => target - state.roundsDone
  | .tokens _ => endurance state

theorem budget_of_rounds (stop_eq : state.config.stop = .rounds target) :
    budget state = target - state.roundsDone := by
  simp [budget, stop_eq]

theorem budget_of_tokens (stop_eq : state.config.stop = .tokens target) :
    budget state = endurance state := by
  simp [budget, stop_eq]

/-- The largest budget that the roster and the joins still pending can have. -/
def fullBudget (state : CoordinatorState) : Nat :=
  match state.config.stop with
  | .rounds target => target
  | .tokens _ =>
    (state.roster.length + state.pending.length) *
      (state.config.kAbsences.toNat + state.config.stallRoundsMax.toNat + 2)

theorem patience_le (config : RunConfig) (round : Nat) (member : Member) :
    patience config round member ≤
      config.kAbsences.toNat + config.stallRoundsMax.toNat + 2 := by
  have excused : excusedRounds config round member ≤ config.stallRoundsMax.toNat + 1 := by
    unfold excusedRounds
    split <;> omega
  unfold patience
  split <;> omega

theorem sum_patience_le_length (config : RunConfig) (round : Nat) (members : List Member) :
    (members.map (patience config round)).sum ≤
      members.length * (config.kAbsences.toNat + config.stallRoundsMax.toNat + 2) := by
  have each := List.sum_le_card_nsmul (members.map (patience config round)) _
    (List.forall_mem_map.mpr fun member _ => patience_le config round member)
  rw [List.length_map] at each
  exact each

theorem budget_le_fullBudget (state : CoordinatorState) : budget state ≤ fullBudget state := by
  unfold budget fullBudget
  split
  · exact Nat.sub_le _ _
  · rw [Nat.add_mul]
    exact Nat.add_le_add (sum_patience_le_length _ _ _) (sum_patience_le_length _ _ _)

/-- Whether the active round has heard a commitment. -/
def heardCommitment (state : CoordinatorState) : Bool :=
  state.phase.isRoundActive && (currentSlot state).any fun slot => !slot.commitments.isEmpty

/-- The phases in the order in which a silent run passes them. -/
def phaseRank (state : CoordinatorState) : Nat :=
  match state.phase with
  | .cooldown => if stopReached state then 1 else 6
  | .waitingForMembers => 5
  | .warmup => 4
  | .roundTrain => 3
  | .roundWitness => 2
  | .uninitialized | .finished | .paused => 0

theorem phaseRank_le (state : CoordinatorState) : phaseRank state ≤ 6 := by
  unfold phaseRank
  split
  · split <;> omega
  all_goals omega

/-- What is left of a silent run. -/
def silenceMeasure (state : CoordinatorState) : Nat :=
  (if heardCommitment state then 7 * (fullBudget state + 1) else 0) +
    7 * budget state + phaseRank state

/-- The budget does not grow with a smaller endurance. -/
theorem budget_le (config_eq : after.config = before.config)
    (done_eq : after.roundsDone = before.roundsDone)
    (endurance_le : endurance after ≤ endurance before) :
    budget after ≤ budget before := by
  unfold budget
  rw [config_eq, done_eq]
  split
  · exact le_rfl
  · exact endurance_le

/-- The next phase with no larger budget and nothing newly heard is
smaller. -/
theorem silenceMeasure_lt_of_rank
    (unheard : heardCommitment after = true →
      heardCommitment before = true ∧ fullBudget after = fullBudget before)
    (budget_le : budget after ≤ budget before)
    (rank_lt : phaseRank after < phaseRank before) :
    silenceMeasure after < silenceMeasure before := by
  unfold silenceMeasure
  cases heard : heardCommitment after with
  | false =>
    simp only [Bool.false_eq_true, if_false]
    omega
  | true =>
    obtain ⟨before_heard, same⟩ := unheard heard
    rw [before_heard, same]
    omega

/-- Once nothing is heard, a smaller budget is smaller in any phase, and so is
every budget that the round just heard can leave. -/
theorem silenceMeasure_lt_of_budget
    (unheard : heardCommitment after = false)
    (budget_le : budget after ≤ fullBudget before)
    (budget_lt : heardCommitment before = false → budget after < budget before) :
    silenceMeasure after < silenceMeasure before := by
  have rank := phaseRank_le after
  unfold silenceMeasure
  rw [unheard]
  cases heard : heardCommitment before with
  | false =>
    have less := budget_lt heard
    simp only [Bool.false_eq_true, if_false]
    omega
  | true =>
    simp only [Bool.false_eq_true, if_false, if_true]
    omega

/-- The run is at rest. -/
def Settled (state : CoordinatorState) : Prop :=
  state.phase = .finished ∨
    (state.phase = .waitingForMembers ∧ state.healthyCount < state.config.minPeers.toNat)

/-- How long a phase lasts at most. -/
def phaseDuration (state : CoordinatorState) : Nat :=
  match state.phase with
  | .warmup => state.config.warmupS
  | .roundTrain => state.config.roundTrainMaxS
  | .roundWitness => state.config.roundWitnessS
  | .cooldown => state.config.cooldownS
  | _ => 0

/-- Nothing happens, and the deadline of the phase has not passed. -/
structure Waits (before after : CoordinatorState) : Prop where
  after_eq : after = before
  early : before.nowS < before.phaseStartS + phaseDuration before

/-- The run has moved on to something smaller. -/
structure Recedes (before after : CoordinatorState) : Prop where
  running : after.phase.isHalted = false
  smaller : silenceMeasure after < silenceMeasure before

/-- A round opened afresh has heard nothing, and uses nothing up. -/
theorem openRound_silent (opened : openRound .trap prims state = some (after, outputs)) :
    heardCommitment after = false ∧ budget after = budget state ∧ after.phase = .roundTrain := by
  obtain ⟨stop, deadline, _, _, rfl, _⟩ := openRound_eq_some opened
  refine ⟨?_, rfl, rfl⟩
  have fresh : (state.rounds.install
      { openedSlot prims state stop with
          roundOpen := some (openingMessage prims state stop deadline) }).get
        state.round = some
      { openedSlot prims state stop with
          roundOpen := some (openingMessage prims state stop deadline) } :=
    RoundRing.get_install_self _ _
  simp only [heardCommitment, currentSlot, fresh]
  rfl

/-- A slot without commitments commits to nothing. -/
theorem committedEntries_of_unheard (active : state.phase.isRoundActive = true)
    (held : currentSlot state = some slot) (unheard : heardCommitment state = false) :
    committedEntries prims slot state.roster = [] := by
  have empty : slot.commitments.isEmpty = true := by
    simpa [heardCommitment, active, held] using unheard
  rw [List.eq_nil_iff_forall_not_mem]
  intro entry member
  obtain ⟨_, commitment, found, _⟩ := mem_committedEntries.mp member
  rw [Std.TreeMap.getElem?_of_isEmpty empty] at found
  cases found

/-- What follows a frozen round is not heard yet and uses nothing more up. -/
theorem decideNext_silent (decided : decideNext .trap prims state = some (after, outputs)) :
    heardCommitment after = false ∧ budget after = budget state ∧
      (stopReached state = true → phaseRank after = 1) := by
  unfold decideNext at decided
  split at decided
  · rename_i stopped
    cases decided
    exact ⟨rfl, rfl, fun _ => if_pos stopped⟩
  rename_i running
  split at decided
  · cases decided
    exact ⟨rfl, rfl, fun stopped => absurd stopped running⟩
  · obtain ⟨unheard, budget_eq, _⟩ := openRound_silent decided
    exact ⟨unheard, budget_eq, fun stopped => absurd stopped running⟩

/-- An unheard round uses up the endurance of a populated roster. -/
theorem frozenState_endurance_lt (slot : RoundState) (roundsDone : Nat)
    (dropping : 0 < state.config.kAbsences.toNat)
    (populated : ∃ member ∈ state.roster, member.isHealthy = true)
    (accounted_eq : state.roster.mapM
      (accountAbsence .trap state.config state.round []) = some accounted) :
    endurance (frozenState prims state slot accounted roundsDone
      (state.round + 1)) < endurance state := by
  have related := Lists.mapM_eq_some_iff_forall₂.mp accounted_eq
  have seated := sum_patience_lt (related.imp fun old new account =>
    ⟨(accountAbsence_patience account).1, (accountAbsence_patience account).2 dropping⟩) populated
  have staged : (state.pending.map (patience state.config (state.round + 1))).sum ≤
      (state.pending.map (patience state.config state.round)).sum :=
    sum_patience_le (List.forall₂_same.mpr fun member _ =>
      patience_succ_le _ _ member)
  exact Nat.add_lt_add_of_lt_of_le seated staged

/-- What makes silent rounds use something up: members are dropped for their
absences, or the rounds are counted. -/
def RunConfig.BoundsSilence (config : RunConfig) : Prop :=
  0 < config.kAbsences.toNat ∨ ∃ target, config.stop = .rounds target

/-- Closing a round in silence makes the measure smaller: the round is counted
or the members are, and once enough rounds are counted the run cools down for
good. -/
theorem finalizeRound_recedes (finalized : finalizeRound .trap prims state = some (after, outputs))
    (bounded : state.config.BoundsSilence)
    (populated : ∃ member ∈ state.roster, member.isHealthy = true)
    (witnessing : state.phase = .roundWitness) (held : currentSlot state = some slot) :
    Recedes state after := by
  obtain ⟨accounted, roundsDone, nextRound, later, accounted_eq, done_eq, next_eq,
    decided, -⟩ := finalizeRound_eq_some held finalized
  obtain ⟨_, rfl⟩ := Overflow.trap_add_eq_some_iff.mp done_eq
  obtain ⟨_, rfl⟩ := Overflow.trap_add_eq_some_iff.mp next_eq
  obtain ⟨unheard, budget_eq, concluding⟩ := decideNext_silent decided
  have running : after.phase.isHalted = false := by
    rcases (decideNext_eq_some decided).2.2.2 with cooling | training
    · rw [cooling]
      rfl
    · rw [training]
      rfl
  refine ⟨running, ?_⟩
  cases stop_eq : state.config.stop with
  | tokens target =>
    have dropping : 0 < state.config.kAbsences.toNat := by
      rcases bounded with dropping | ⟨_, rounds⟩
      · exact dropping
      · rw [stop_eq] at rounds
        cases rounds
    have full : budget (frozenState prims state slot accounted
        (state.roundsDone + 1) (state.round + 1)) ≤ fullBudget state := by
      have same := (Lists.mapM_eq_some_iff_forall₂.mp accounted_eq).length_eq
      refine (budget_le_fullBudget _).trans_eq ?_
      simp only [fullBudget, frozenState, same]
    refine silenceMeasure_lt_of_budget unheard (budget_eq.trans_le full) fun nothing => ?_
    rw [committedEntries_of_unheard (by rw [witnessing]; rfl) held nothing] at accounted_eq
    have frozen_eq : budget (frozenState prims state slot accounted
        (state.roundsDone + 1) (state.round + 1)) = endurance _ :=
      budget_of_tokens stop_eq
    rw [budget_eq, frozen_eq, budget_of_tokens stop_eq]
    exact frozenState_endurance_lt slot _ dropping populated accounted_eq
  | rounds target =>
    have frozen_eq : budget (frozenState prims state slot accounted
        (state.roundsDone + 1) (state.round + 1)) =
        target - (state.roundsDone + 1) :=
      budget_of_rounds stop_eq
    have before_eq := budget_of_rounds stop_eq
    by_cases short : state.roundsDone < target
    · have full : fullBudget state = target := by
        simp only [fullBudget, stop_eq]
      refine silenceMeasure_lt_of_budget unheard ?_ fun _ => ?_
      · omega
      · omega
    · have stopped : stopReached (frozenState prims state slot accounted
          (state.roundsDone + 1) (state.round + 1)) = true := by
        simp only [stopReached, frozenState, stop_eq]
        exact decide_eq_true (by omega)
      refine silenceMeasure_lt_of_rank (fun heard => ?_) (by omega) ?_
      · rw [unheard] at heard
        cases heard
      · rw [concluding stopped, phaseRank, witnessing]
        exact Nat.one_lt_two

/-- A clock that leaves a phase undecided waits. -/
theorem Waits.of_undecided {early : Bool}
    (undecided : phaseOver .trap state early duration = some false)
    (lasts : phaseDuration state = duration)
    (stayed : some (state, silence) = some (after, outputs)) :
    Waits state after := by
  cases stayed
  refine ⟨rfl, ?_⟩
  rw [lasts]
  unfold phaseOver at undecided
  split at undecided
  · cases undecided
  · obtain ⟨deadline, deadline_eq, passed⟩ := Option.map_eq_some_iff.mp undecided
    obtain ⟨_, rfl⟩ := Overflow.trap_add_eq_some_iff.mp deadline_eq
    simpa using passed

/-- A clock in an active round waits, or moves on. -/
theorem activeTime_recedes (driven : driveTime .trap prims state = some (after, outputs))
    (active : state.phase.isRoundActive = true) (bounded : state.config.BoundsSilence)
    (populated : ∃ member ∈ state.roster, member.isHealthy = true)
    (held : ∃ slot, currentSlot state = some slot) :
    Recedes state after ∨ Waits state after := by
  obtain ⟨slot, held⟩ := held
  unfold driveTime at driven
  cases phase_eq : state.phase <;> simp [phase_eq, Phase.isRoundActive] at active
  case roundTrain =>
    -- The round may be finalised in the same step.
    simp only [phase_eq] at driven
    split at driven
    · cases driven
    · left
      obtain ⟨middle, earlier, later, changed, finalized, rfl⟩ := andThen_eq_some_iff.mp driven
      cases changed
      have advanced : Recedes state
          { state with phase := .roundWitness, phaseStartS := state.nowS } := by
        refine ⟨rfl, silenceMeasure_lt_of_rank ?_ le_rfl ?_⟩
        · intro heard
          refine ⟨?_, rfl⟩
          simpa [heardCommitment, phase_eq, currentSlot, Phase.isRoundActive] using heard
        · simp [phaseRank, phase_eq]
      unfold maybeFinalize at finalized
      split at finalized
      · have closed := finalizeRound_recedes finalized bounded populated rfl held
        exact ⟨closed.running, closed.smaller.trans advanced.smaller⟩
      · cases finalized
        exact advanced
    · rename_i waiting
      exact .inr (.of_undecided waiting (by rw [phaseDuration, phase_eq]) driven)
  case roundWitness =>
    simp only [phase_eq] at driven
    split at driven
    · cases driven
    · exact .inl (finalizeRound_recedes driven bounded populated phase_eq held)
    · rename_i waiting
      exact .inr (.of_undecided waiting (by rw [phaseDuration, phase_eq]) driven)

/-- A clock while the run waits for members: some decay, and the others are
enough to warm up or not. -/
theorem waitingTime_cases (driven : driveTime .trap prims state = some (after, outputs))
    (waiting : state.phase = .waitingForMembers) :
    ∃ decay : Member → Member,
      (∀ member, decay member = member ∨ decay member = { member with state := .dropped }) ∧
      ((state.config.minPeers.toNat ≤ CoordinatorState.healthyCount
            { state with roster := state.roster.map decay } ∧
          after =
            { state with
                roster := (state.roster.map decay).map fun member =>
                  { member with warmupReady := false }
                phase := .warmup
                phaseStartS := state.nowS }) ∨
        (CoordinatorState.healthyCount
            { state with roster := state.roster.map decay } < state.config.minPeers.toNat ∧
          after = { state with roster := state.roster.map decay })) := by
  simp only [driveTime, waiting] at driven
  obtain ⟨middle, earlier, later, decayed, entered, rfl⟩ := andThen_eq_some_iff.mp driven
  obtain ⟨decay, drops, rfl, -⟩ := decayStaleMembers_eq_some decayed
  refine ⟨decay, drops, ?_⟩
  split at entered
  · rename_i enough
    cases entered
    exact .inl ⟨enough, rfl⟩
  · rename_i below
    cases entered
    exact .inr ⟨Nat.lt_of_not_le below, rfl⟩

/-- A clock between rounds brings the run to rest, waits, or moves on. -/
theorem idleTime_recedes (driven : driveTime .trap prims state = some (after, outputs))
    (running : state.phase.isHalted = false) (idle : state.phase.isRoundActive = false) :
    Settled after ∨ Recedes state after ∨ Waits state after := by
  cases phase_eq : state.phase <;> simp [phase_eq, Phase.isHalted] at running
  case waitingForMembers =>
    obtain ⟨decay, drops, ⟨_, rfl⟩ | ⟨below, rfl⟩⟩ := waitingTime_cases driven phase_eq
    · refine .inr (.inl ⟨rfl, silenceMeasure_lt_of_rank ?_ ?_ ?_⟩)
      · exact fun heard => by cases heard
      · refine budget_le rfl rfl (Nat.add_le_add_right (sum_patience_le ?_) _)
        rw [List.map_map, List.forall₂_map_right_iff]
        refine List.forall₂_same.mpr fun member _ => ?_
        -- a dropped member has no patience
        rcases drops member with kept | dropped
        · rw [Function.comp_apply, kept]
          exact le_rfl
        · rw [Function.comp_apply, dropped, patience_of_dropped rfl]
          exact Nat.zero_le _
      · simp [phaseRank, phase_eq]
    · exact .inl (.inr ⟨phase_eq, below⟩)
  case warmup =>
    simp only [driveTime, phase_eq] at driven
    split at driven
    · rename_i below
      cases driven
      exact .inl (.inr ⟨rfl, below⟩)
    split at driven
    · cases driven
    · obtain ⟨unheard, budget_eq, training⟩ := openRound_silent driven
      refine .inr (.inl ⟨by rw [training]; rfl, silenceMeasure_lt_of_rank ?_ ?_ ?_⟩)
      · exact fun heard => by simp [unheard] at heard
      · exact budget_eq.le
      · simp [phaseRank, phase_eq, training]
    · rename_i waiting
      exact .inr (.inr (.of_undecided waiting (by rw [phaseDuration, phase_eq]) driven))
  case roundTrain => simp [phase_eq, Phase.isRoundActive] at idle
  case roundWitness => simp [phase_eq, Phase.isRoundActive] at idle
  case cooldown =>
    simp only [driveTime, phase_eq] at driven
    split at driven
    · cases driven
    · unfold exitCooldown at driven
      split at driven
      · obtain ⟨middle, earlier, later, changed, published, rfl⟩ :=
          andThen_eq_some_iff.mp driven
        cases changed
        cases published
        exact .inl (.inl rfl)
      · rename_i unfinished
        split at driven
        · cases driven
        rename_i epoch _
        cases driven
        refine .inr (.inl ⟨rfl, silenceMeasure_lt_of_rank ?_ ?_ ?_⟩)
        · exact fun heard => by cases heard
        · exact budget_le rfl rfl (sum_patience_drain_le state.config state.round epoch _ _)
        · simp [phaseRank, phase_eq, unfinished]
    · rename_i waiting
      exact .inr (.inr (.of_undecided waiting (by rw [phaseDuration, phase_eq]) driven))

section Runs

variable {prims : Primitives}
variable {outputs : List Output}

/-- Whether the floor is met does not depend on the width of the count. -/
theorem TickRun.healthyCount_eq (run : TickRun mode prims config seed nowS trace state) :
    state.healthyCount = state.healthy.length := by
  have room := run.rosterInv.room
  have ceiling := state.ledger.config.maxPeers.toNat_lt
  have seated : state.healthy.length ≤ state.ledger.occupancy := by
    rw [Ledger.occupancy, CoordinatorState.ledger_healthySeats, List.length_map]
    exact Nat.le_add_right _ _
  exact Nat.mod_eq_of_lt (by omega)

/-- A clock from a reachable running state brings the run to rest, moves it
on, or waits. -/
theorem TickRun.clock_moves (run : TickRun .trap prims config seed nowS trace state)
    (floor : 1 ≤ config.minPeers.toNat) (bounded : config.BoundsSilence)
    (running : state.phase.isHalted = false)
    (ticked : tick .trap prims state (.clock now) = some (after, outputs)) :
    Settled after ∨ Recedes (observeClock state now) after ∨
      Waits (observeClock state now) after := by
  have driven : driveTime .trap prims (observeClock state now) = some (after, outputs) := by
    simpa [tick, onClock, running] using ticked
  cases active : state.phase.isRoundActive with
  | false => exact idleTime_recedes driven running active
  | true =>
    have round := run.activeInv active
    obtain ⟨slot, held, _⟩ := currentSlot_of_held round.held
    refine .inr (activeTime_recedes driven active ?_ ?_ ⟨slot, held⟩)
    · change state.config.BoundsSilence
      rw [run.config_eq]
      exact bounded
    · have enough := round.floor
      rw [CoordinatorState.ledger_config, run.config_eq,
        CoordinatorState.ledger_healthyCount, run.healthyCount_eq] at enough
      obtain ⟨member, healthy⟩ := List.exists_mem_of_length_pos (floor.trans enough)
      exact ⟨member, List.mem_filter.mp healthy⟩

/-- A run at rest stays at rest on clocks, in its phase and round. -/
theorem TickRun.clock_settled
    (run : TickRun .trap prims config seed nowS trace state)
    (settled : Settled state)
    (ticked : tick .trap prims state (.clock now) = some (after, outputs)) :
    Settled after ∧ after.phase = state.phase ∧ after.round = state.round := by
  rcases settled with finished | ⟨waiting, below⟩
  · rw [tick, onClock, finished] at ticked
    cases ticked
    exact ⟨.inl finished, rfl, rfl⟩
  · have driven : driveTime .trap prims (observeClock state now) =
        some (after, outputs) := by
      simpa [tick, onClock, waiting, Phase.isHalted] using ticked
    obtain ⟨decay, drops, ⟨enough, _⟩ | ⟨below, rfl⟩⟩ := waitingTime_cases driven waiting
    · have counted : CoordinatorState.healthyCount
          { observeClock state now with roster := state.roster.map decay } ≤
            ((state.roster.map decay).filter Member.isHealthy).length :=
        Nat.mod_le _ _
      have fewer := (thins_map_of_drops drops state.roster).healthy_length_le
      simp only [List.filter_map, List.length_map] at counted fewer
      rw [run.healthyCount_eq] at below
      exact absurd (enough.trans (counted.trans fewer)) (Nat.not_le_of_lt below)
    · exact ⟨.inr ⟨waiting, below⟩, rfl, rfl⟩

/-- Whether a step leaves the phase or the round it meets. -/
def advances (recorded : Step CoordinatorState Input Output) : Bool :=
  recorded.after.phase != recorded.before.phase || recorded.after.round != recorded.before.round

/-- Whether a step is a clock past the deadline of the phase it meets. -/
def overdue (recorded : Step CoordinatorState Input Output) : Bool :=
  match recorded.input with
  | .clock now => recorded.before.phaseStartS + phaseDuration recorded.before ≤ now
  | _ => false

/-- What a silent run from `start` has used up: it rests, or every clock that
moved it on or was overdue has made the measure smaller. -/
inductive Spends (start : CoordinatorState) (clocks : List (Step CoordinatorState Input Output))
    (state : CoordinatorState) : Prop
  | rests
      (settled : Settled state)
      (moves : clocks.countP advances ≤ silenceMeasure start + 1)
  | runs
      (running : state.phase.isHalted = false)
      (moves : clocks.countP advances + silenceMeasure state ≤ silenceMeasure start)
      (late : clocks.countP overdue + silenceMeasure state ≤ silenceMeasure start)

/-- One more clock spends some of the measure, or nothing happens. -/
theorem Spends.snoc
    (run : TickRun .trap prims config seed nowS trace recorded.before)
    (floor : 1 ≤ config.minPeers.toNat)
    (bounded : config.BoundsSilence)
    (spent : Spends start clocks recorded.before)
    (input_eq : recorded.input = .clock now)
    (ticked : tick .trap prims recorded.before (.clock now) =
      some (recorded.after, recorded.output)) :
    Spends start (clocks ++ [recorded]) recorded.after := by
  have counts (counted : Step CoordinatorState Input Output → Bool) :
      (clocks ++ [recorded]).countP counted =
        clocks.countP counted + if counted recorded then 1 else 0 := by
    rw [List.countP_append, List.countP_singleton]
  have once (counted : Step CoordinatorState Input Output → Bool) :
      (clocks ++ [recorded]).countP counted ≤ clocks.countP counted + 1 := by
    rw [counts]
    split <;> omega
  have moved := once advances
  have passed := once overdue
  cases spent with
  | rests settled moves =>
    obtain ⟨stays, phase_eq, round_eq⟩ := run.clock_settled settled ticked
    refine .rests stays ?_
    rw [counts, if_neg (by simp [advances, phase_eq, round_eq])]
    exact moves
  | runs running moves late =>
    rcases run.clock_moves floor bounded running ticked with settled | recedes | waits
    · exact .rests settled (by omega)
    · have smaller : silenceMeasure recorded.after < silenceMeasure recorded.before :=
        recedes.smaller
      exact .runs recedes.running (by omega) (by omega)
    · -- Before the deadline, the clock changes nothing but the time.
      have same : recorded.after = observeClock recorded.before now := waits.after_eq
      have early : max recorded.before.nowS now <
          recorded.before.phaseStartS + phaseDuration recorded.before := waits.early
      have stays : ¬advances recorded = true := by
        simp [advances, same, observeClock]
      have timely : ¬overdue recorded = true := by
        simp only [overdue, input_eq, decide_eq_true_eq]
        omega
      have measure_eq : silenceMeasure recorded.after = silenceMeasure recorded.before := by
        rw [same]
        rfl
      refine .runs (by rw [same]; exact running) ?_ ?_
      · rw [counts, if_neg stays, measure_eq]
        exact moves
      · rw [counts, if_neg timely, measure_eq]
        exact late

/-- A silent run spends the measure of the state it starts in. -/
theorem TickRun.spends
    (run : TickRun .trap prims config seed nowS trace start)
    (running : start.phase.isHalted = false)
    (floor : 1 ≤ config.minPeers.toNat)
    (bounded : config.BoundsSilence)
    (clocked : Run (graph (tick .trap prims)) start clocks state)
    (silent : ∀ recorded ∈ clocks, ∃ now, recorded.input = .clock now) :
    Spends start clocks state := by
  induction clocked with
  | nil => exact .runs running (by simp) (by simp)
  | snoc earlier ticked ih =>
    obtain ⟨now, rfl⟩ := silent _ (List.mem_append_right _ (List.mem_singleton_self _))
    have spent := ih fun recorded member => silent _ (List.mem_append_left _ member)
    exact spent.snoc (run.append earlier) floor bounded rfl ticked

/-- A silent run that rests stays at rest. -/
theorem TickRun.rests
    (run : TickRun .trap prims config seed nowS trace start)
    (clocked : Run (graph (tick .trap prims)) start clocks state)
    (silent : ∀ recorded ∈ clocks, ∃ now, recorded.input = .clock now)
    (member : recorded ∈ clocks)
    (settled : Settled recorded.before) :
    Settled recorded.after ∧ recorded.after.phase = recorded.before.phase := by
  obtain ⟨⟨earlier, reached⟩, ticked⟩ := clocked.before_reached member
  obtain ⟨now, input_eq⟩ := silent recorded member
  rw [input_eq] at ticked
  obtain ⟨stays, phase_eq, _⟩ := TickRun.clock_settled (run.append reached) settled ticked
  exact ⟨stays, phase_eq⟩

/-- From every reachable running state, with a floor of at least one member
and with absences or rounds that count, `silenceMeasure` of that state bounds
what clocks alone can do. At most that many and one more leave the phase or
the round they meet. Once more than that many have passed the deadline of the
phase they meet, the run is finished, or it waits with fewer healthy members
than the floor; and it stays so. -/
theorem silence_terminates
    (run : TickRun .trap prims config seed nowS trace start)
    (running : start.phase.isHalted = false)
    (floor : 1 ≤ config.minPeers.toNat)
    (bounded : 0 < config.kAbsences.toNat ∨ ∃ target, config.stop = .rounds target)
    (clocked : Run (graph (tick .trap prims)) start clocks state)
    (silent : ∀ recorded ∈ clocks, ∃ now, recorded.input = .clock now) :
    clocks.countP advances ≤ silenceMeasure start + 1 ∧
      (silenceMeasure start < clocks.countP overdue →
        state.phase = .finished ∨
          (state.phase = .waitingForMembers ∧ state.healthyCount < config.minPeers.toNat)) ∧
      ∀ recorded ∈ clocks, Settled recorded.before →
        Settled recorded.after ∧ recorded.after.phase = recorded.before.phase := by
  refine ⟨?_, fun passed => ?_, fun _ => run.rests clocked silent⟩
  · cases run.spends running floor bounded clocked silent with
    | rests _ moves => exact moves
    | runs _ moves _ => omega
  · cases run.spends running floor bounded clocked silent with
    | rests settled _ =>
      rw [Settled, TickRun.config_eq (run.append clocked)] at settled
      exact settled
    | runs _ _ late => omega

end Runs

/-- A run for tokens that drops a member at its first absence. -/
def silentConfig : RunConfig :=
  { sampleConfig with
      stop := .tokens 100
      kAbsences := 1 }

/-- Two members that fall silent in the first round. -/
def silentSample : List Input :=
  [sampleJoin (samplePeer 1), sampleJoin (samplePeer 2), .clock 1, .clock 20]

/-- Clocks ten seconds apart. -/
def silentClocks : List Input :=
  (List.range 40).map fun index => .clock (30 + 10 * index)

/-- From the first round of a run for tokens, clocks alone lose the members and
bring the run to rest. -/
theorem silence_terminates_sample :
    ∃ trace start,
      TickRun .trap samplePrimitives silentConfig (Bytes.fill 32 7) 0 trace start ∧
        start.phase = .roundTrain ∧
        start.healthyCount = 2 ∧
        ∃ clocks state,
          Run (graph (tick .trap samplePrimitives)) start clocks state ∧
            clocks.map Step.input = silentClocks ∧
            silenceMeasure start < clocks.countP overdue ∧
            clocks.countP advances ≤ silenceMeasure start + 1 ∧
            (state.phase = .finished ∨
              (state.phase = .waitingForMembers ∧
                state.healthyCount < silentConfig.minPeers.toNat)) := by
  obtain ⟨trace, start, run, training, seated, ⟨clocks, state⟩, executed, passed⟩ :=
    sampleRun_of_checked silentConfig silentSample
      (fun _ start => start.phase = .roundTrain ∧ start.healthyCount = 2 ∧
        ∃ result ∈ exec (tick .trap samplePrimitives) start silentClocks,
          silenceMeasure start < result.1.countP overdue)
      (by decide +kernel)
  have clocked := Run.of_exec executed
  have inputs := exec_inputs executed
  have silent : ∀ recorded ∈ clocks, ∃ now, recorded.input = .clock now := by
    intro recorded member
    have listed := List.mem_map_of_mem (f := Step.input) member
    rw [inputs] at listed
    obtain ⟨index, _, input_eq⟩ := List.mem_map.mp listed
    exact ⟨_, input_eq.symm⟩
  obtain ⟨moves, rests, _⟩ := silence_terminates run (by rw [training]; rfl) (by decide)
    (.inl (by decide)) clocked silent
  exact ⟨trace, start, run, training, seated, clocks, state, clocked, inputs, passed, moves,
    rests passed⟩

end DaemonNode.Coordinator
