import DaemonNode.Coordinator.Refinement

/-!
# Rejected inputs

A rejection is the only output of its step, and the step keeps the state, apart from the clock
and from the time at which the signer was heard last.
-/

namespace DaemonNode.Coordinator

open Word (Overflow)

def Output.rejects : Output → Bool
  | reject _ => true
  | _ => false

namespace Outcome

/-- No result of a handler has a rejection. -/
def Accepts (outcome : Outcome) : Prop :=
  outcome.Yields fun outputs _ => ∀ output ∈ outputs, output.rejects = false

/-- A handler has no rejection, or has nothing else and keeps a state. -/
def Decides (kept : CoordinatorState) (outcome : Outcome) : Prop :=
  outcome.Yields fun outputs after => (∀ output ∈ outputs, output.rejects = false) ∨
    after = kept ∧ ∃ reason, outputs = [.reject reason]

theorem Accepts.decides {outcome : Outcome} (accepts : outcome.Accepts) : outcome.Decides kept :=
  fun after outputs handled => .inl (accepts after outputs handled)

theorem Accepts.andThen {first : Outcome} (earlier : first.Accepts)
    (later : ∀ middle, (next middle).Accepts) : (first.andThen next).Accepts := by
  intro after outputs handled
  obtain ⟨middle, before, behind, began, ended, rfl⟩ := andThen_eq_some_iff.mp handled
  exact List.forall_mem_append.mpr ⟨earlier _ _ began, later _ _ _ ended⟩

end Outcome

open Outcome

section Handlers

variable {mode : Overflow} {prims : Primitives} {state : CoordinatorState}

theorem idle_accepts : Accepts (some (state, [])) :=
  .returned nofun

theorem changePhase_accepts : (changePhase state phase).Accepts :=
  .returned (List.forall_mem_singleton.mpr rfl)

theorem openRound_accepts : (openRound mode prims state).Accepts := by
  intro after outputs opened
  obtain ⟨_, _, _, _, _, rfl⟩ := openRound_eq_some opened
  simp [Output.rejects]

theorem finalizeRound_accepts : (finalizeRound mode prims state).Accepts := by
  unfold finalizeRound
  split
  · exact idle_accepts
  · apply Accepts.andThen
    · intro after outputs frozen
      obtain ⟨_, _, _, _, _, _, _, rfl⟩ := freezeRound_eq_some frozen
      simp [or_imp, forall_and, Output.rejects]
    · intro middle
      unfold decideNext
      split_ifs
      · exact changePhase_accepts
      · exact changePhase_accepts
      · exact openRound_accepts

theorem maybeFinalize_accepts : (maybeFinalize mode prims state).Accepts := by
  unfold maybeFinalize
  split
  · exact finalizeRound_accepts
  · exact idle_accepts

theorem maybeAdvance_accepts : (maybeAdvance mode prims state).Accepts := by
  refine Accepts.andThen ?_ fun _ => maybeFinalize_accepts
  unfold maybeWitness
  split
  · exact changePhase_accepts
  · exact idle_accepts

theorem decayStaleMembers_accepts : (decayStaleMembers mode state).Accepts := by
  unfold decayStaleMembers
  split
  · exact idle_accepts
  split
  · exact .trapped
  dsimp only
  split
  · exact idle_accepts
  · exact .returned (List.forall_mem_map.mpr fun _ _ => rfl)

theorem exitCooldown_accepts : (exitCooldown mode state).Accepts := by
  unfold exitCooldown
  split
  · exact changePhase_accepts.andThen fun _ => .returned (by simp [Output.rejects])
  split
  · exact .trapped
  · exact changePhase_accepts

theorem driveTime_accepts : (driveTime mode prims state).Accepts := by
  unfold driveTime
  cases state.phase with
  | waitingForMembers =>
    refine decayStaleMembers_accepts.andThen fun _ => ?_
    split
    · exact changePhase_accepts
    · exact idle_accepts
  | warmup | roundTrain | roundWitness | cooldown =>
    dsimp only
    repeat' split
    all_goals first
      | exact .trapped
      | exact idle_accepts
      | exact changePhase_accepts
      | exact openRound_accepts
      | exact changePhase_accepts.andThen fun _ => maybeFinalize_accepts
      | exact finalizeRound_accepts
      | exact exitCooldown_accepts
  | uninitialized | finished | paused => exact idle_accepts

theorem reject_decides (state : CoordinatorState) (reason : Rejection) :
    (reject state reason).Decides state :=
  .returned (.inr ⟨rfl, reason, rfl⟩)

theorem onJoin_decides : (onJoin state signer version join).Decides state := by
  have replays (state : CoordinatorState) (output : Output)
      (member : output ∈ .note (.admitted signer) :: replayForward state) :
      output.rejects = false := by
    revert output
    exact List.forall_mem_cons.mpr ⟨rfl, List.forall_mem_append.mpr
      ⟨List.forall_mem_map.mpr fun _ _ => rfl, List.forall_mem_map.mpr fun _ _ => rfl⟩⟩
  unfold onJoin
  split
  · exact .returned (.inl (replays _))
  · exact reject_decides _ _
  · exact .returned (.inl (replays _))

/-- A handler that rejects keeps the state it is given. -/
theorem handlePayload_decides :
    (handlePayload mode prims state signer version payload).Decides state := by
  cases payload with
  | join join => exact onJoin_decides
  | commitment | attestation | storageReceipt =>
    simp only [handlePayload, onCommitment, onAttestation, onReceipt]
    split_ifs
    all_goals first | exact reject_decides _ _ | exact maybeAdvance_accepts.decides
  | digest digest =>
    simp only [handlePayload, onDigest]
    split
    · exact reject_decides _ _
    split
    · exact reject_decides _ _
    · exact .returned (.inl (List.forall_mem_map.mpr fun _ _ => rfl))
  | straggle straggle => exact idle_accepts.decides
  | heartbeat heartbeat =>
    apply Accepts.decides
    simp only [handlePayload, onHeartbeat, maybeExitWarmup]
    split
    · exact openRound_accepts
    · exact idle_accepts
  | checkpointAttestation wire =>
    simp only [handlePayload, onCheckpointAttestation]
    split
    · exact reject_decides _ _
    split
    · exact reject_decides _ _
    · exact idle_accepts.decides
    · exact .returned (.inl (List.forall_mem_singleton.mpr rfl))
  | roundOpen | roundRecord | finished => exact reject_decides _ _

theorem onControl_decides : (onControl prims state request).Decides state := by
  unfold onControl
  cases request.body.action
  all_goals
    split_ifs
    all_goals first | exact reject_decides _ _ | exact changePhase_accepts.decides

/-- A step with a rejection publishes nothing, and keeps the state but for the clock, if time is
told, and for when the signer was heard, if a message came in. -/
theorem rejection_effect_free {mode : Overflow} {prims : Primitives}
    {state after : CoordinatorState} {input : Input} {outputs : List Output} {reason : Rejection}
    (stepped : tick mode prims state input = some (after, outputs))
    (rejected : .reject reason ∈ outputs) :
    publishedMessages outputs = [] ∧
      (after = state ∨
        (∃ now, input = .clock now ∧ after = { state with nowS := max state.nowS now }) ∨
        ∃ message, input = .message message ∧
          after = { state with
            roster := CoordinatorState.updateMember message.signer
              (fun member => { member with lastSeenS := state.nowS }) state.roster }) := by
  have keeps {kept : CoordinatorState} (decided : Decides kept (some (after, outputs))) :
      publishedMessages outputs = [] ∧ after = kept := by
    rcases decided _ _ rfl with accepted | ⟨rfl, other, rfl⟩
    · cases accepted _ rejected
    · exact ⟨rfl, rfl⟩
  cases input with
  | clock now =>
    have decided : Decides (observeClock state now) (onClock mode prims state now) := by
      unfold onClock
      split
      · exact reject_decides _ _
      · exact driveTime_accepts.decides
    rw [show onClock mode prims state now = _ from stepped] at decided
    exact (keeps decided).imp_right fun same => .inr (.inl ⟨now, rfl, same⟩)
  | message message =>
    have decided : Decides state (onMessage mode prims state message) ∨
        Decides (stampSigner state message.signer) (onMessage mode prims state message) := by
      unfold onMessage
      split_ifs
      any_goals exact .inl (reject_decides _ _)
      exact .inr handlePayload_decides
    rw [show onMessage mode prims state message = _ from stepped] at decided
    rcases decided with early | late
    · exact (keeps early).imp_right .inl
    · exact (keeps late).imp_right fun same => .inr (.inr ⟨message, rfl, same⟩)
  | control request =>
    have decided := @onControl_decides prims state request
    rw [show onControl prims state request = _ from stepped] at decided
    exact (keeps decided).imp_right .inl

end Handlers

/-- The commitment of a sample member to a round that has not come. -/
def earlyCommitment : SignedMessage :=
  sampleFrame (samplePeer 1) (.commitment ⟨5, Bytes.fill 32 1, 1, []⟩)

/-- In the first round of a run, an early commitment is rejected, and its signer has been
heard. -/
theorem rejection_effect_free_early :
    ∃ trace state after,
      TickRun .trap samplePrimitives sampleConfig (Bytes.fill 32 7) 0 trace state ∧
        tick .trap samplePrimitives state (.message earlyCommitment) =
          some (after, [.reject (.staleRound 0 5)]) ∧
        state.roster.map Member.lastSeenS = [0] ∧
        after.roster.map Member.lastSeenS = [20] ∧
        after = { state with
          roster := CoordinatorState.updateMember (samplePeer 1)
            (fun member => { member with lastSeenS := state.nowS }) state.roster } := by
  obtain ⟨trace, state, run, ⟨after, outputs⟩, stepped, rejected, seen, heard⟩ :=
    sampleRun_of_checked sampleConfig [sampleJoin (samplePeer 1), .clock 1, .clock 20]
      (fun _ state => ∃ stepped ∈ tick .trap samplePrimitives state (.message earlyCommitment),
        stepped.2 = [.reject (.staleRound 0 5)] ∧
          state.roster.map Member.lastSeenS = [0] ∧
          stepped.1.roster.map Member.lastSeenS = [20]) (by decide +kernel)
  obtain rfl : outputs = _ := rejected
  refine ⟨trace, state, after, run, stepped, seen, heard, ?_⟩
  rcases (rejection_effect_free stepped (List.mem_singleton_self _)).2 with
    same | ⟨now, told, _⟩ | ⟨message, came, stamped⟩
  · rw [same, seen] at heard
    cases heard
  · cases told
  · cases came
    exact stamped

end DaemonNode.Coordinator
