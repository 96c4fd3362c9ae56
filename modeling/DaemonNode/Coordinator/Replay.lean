import DaemonNode.Coordinator.History

/-!
# Replay-forward

A peer that joins, or joins again, is sent the records the ring retains and
the standing opening of the active round. Along a run without overflow the
retained records are one gap-free run of the history that ends at the last
frozen round, and the standing opening is the one flooded last.
-/

namespace DaemonNode.Coordinator

open Machine
open Ledger (Opens)

def lastOpen (outputs : List Output) (round : Nat) : Option RoundOpen :=
  ((publishedOpens outputs).filter fun opening =>
    decide (opening.round = round)).getLast?

def firstRecord (outputs : List Output) (round : Nat) : Option RoundRecord :=
  (publishedRecords outputs).find? fun record => decide (record.round = round)

/-- The first round a replay covers: all of them before the ring is full,
afterwards the last fifteen, or sixteen when the current round has no slot
yet. -/
def replayStart (state : CoordinatorState) : Nat :=
  if state.round < numStoredRounds then 0
  else if (state.rounds.get state.round).isSome then state.round - (numStoredRounds - 1)
  else state.round - numStoredRounds

/-- Publishing nothing for a round keeps its last opening. -/
theorem lastOpen_append_of_quiet (earlier : List Output) (round : Nat)
    (quiet : publishedOpens outputs = []) :
    lastOpen (earlier ++ outputs) round = lastOpen earlier round := by
  simp [lastOpen, quiet]

theorem lastOpen_append_of_opened (earlier : List Output)
    (opened : publishedOpens outputs = [opening]) :
    lastOpen (earlier ++ outputs) opening.round = some opening := by
  simp [lastOpen, opened]

/-- The opening retained for the active round is the one published last. -/
def StandingInv (outputs : List Output) (ledger : Ledger) : Prop :=
  ledger.phase.isRoundActive = true → lastOpen outputs ledger.round = ledger.currentFrame.roundOpen

namespace StandingInv

/-- Opening a round makes its opening the standing one. -/
theorem of_opens (earlier : List Output) (published : publishedOpens outputs = [opening])
    (opened : Opens mode prims ledger opening after) :
    StandingInv (earlier ++ outputs) after := by
  intro _
  have round_eq : after.round = opening.round := by
    rw [opened.after_eq, opened.round_eq]
  have frame_eq : after.currentFrame.roundOpen = some opening := by
    rw [Ledger.currentFrame, opened.after_eq]
    dsimp only
    rw [Function.update_self]
  rw [frame_eq, round_eq]
  exact lastOpen_append_of_opened earlier published

/-- Every move keeps the standing opening. -/
theorem move (active : ActiveInv prims ledger) (inv : StandingInv earlier ledger)
    (moved : Move mode prims ledger outputs after) :
    StandingInv (earlier ++ outputs) after := by
  have replayed : ∀ peer, StandingInv
      (earlier ++ (.note (.admitted peer) :: ledger.replay)) ledger := by
    intro peer isActive
    have rests := active isActive
    obtain ⟨opening, retained, round_eq, _, _⟩ := rests.opening
    have standing : ledger.standingOpen = some opening := by
      rw [Ledger.standingOpen, if_pos isActive, if_pos rests.held]
      exact retained
    have published : publishedOpens (.note (.admitted peer) :: ledger.replay) = [opening] := by
      change publishedOpens ledger.replay = [opening]
      rw [publishedOpens_replay, standing]
      rfl
    rw [retained, ← round_eq]
    exact lastOpen_append_of_opened earlier published
  cases moved with
  | silent silent =>
    intro isActive
    rw [lastOpen_append_of_quiet _ _ silent.publishedOpens_eq]
    exact inv isActive
  | decay waiting =>
    intro isActive
    simp [waiting, Phase.isRoundActive] at isActive
  | enterWarmup | floorBreach | conclude | drain | pause => exact fun isActive => by cases isActive
  | toWitness training =>
    intro _
    rw [lastOpen_append_of_quiet _ _ rfl]
    exact inv (by rw [training]; rfl)
  | openFirst _ _ opened => exact of_opens earlier rfl opened
  | seat forming =>
    intro isActive
    rcases forming with forming | forming <;> simp [forming, Phase.isRoundActive] at isActive
  | stage | rejoin => exact replayed _

/-- Closing a round ends its standing opening or replaces it. -/
theorem closing (closed : Closing mode prims ledger outputs after) :
    StandingInv (earlier ++ outputs) after := by
  cases closed with
  | cool => nofun
  | @advance record frozen drops opening _ freezing silent _ _ opened =>
    refine of_opens earlier ?_ opened
    rw [publishedOpens_append, silent.publishedOpens_eq]
    rfl

/-- Every step keeps the standing opening. -/
theorem step (active : ActiveInv prims ledger) (inv : StandingInv earlier ledger)
    (stepped : LedgerStep mode prims ledger input outputs after) :
    StandingInv (earlier ++ outputs) after := by
  cases stepped with
  | resume => nofun
  | progress progress =>
    have both := progress.accumulate
      (fun earlier ledger => ActiveInv prims ledger ∧ StandingInv earlier ledger)
      (fun _ _ _ _ holds moved => ⟨holds.1.move moved, holds.2.move holds.1 moved⟩)
      (fun _ _ _ _ _ closed => ⟨.closing closed, .closing closed⟩)
      ⟨active, inv⟩
    exact both.2

end StandingInv

namespace Records

variable {outputs : List Output} {ledger : Ledger} {frozen : List RoundRecord}

section

variable (records : Records outputs ledger frozen)

include records

/-- Every round before the current one was published, first as its frozen
record. -/
theorem firstRecord_eq {round : Nat} (earlier : round < ledger.round) :
    firstRecord outputs round = frozen[round]? := by
  have listed : round ∈ (publishedRecords outputs).map RoundRecord.round := by
    rw [← List.mem_eraseDups, records.first_eq]
    exact List.mem_range.mpr earlier
  obtain ⟨published, isPublished, published_eq⟩ := List.mem_map.mp listed
  cases found : firstRecord outputs round with
  | none =>
    have absent := List.find?_eq_none.mp found published isPublished
    simp [published_eq] at absent
  | some record =>
    have round_eq : record.round = round := by
      simpa using List.find?_some found
    rw [← round_eq, records.faithful record (List.mem_of_find?_eq_some found)]

theorem ascending : frozen.Pairwise fun left right => left.round < right.round := by
  rw [List.pairwise_iff_getElem]
  intro left right leftInside rightInside less
  rw [records.round_eq left _ (List.getElem?_eq_getElem leftInside),
    records.round_eq right _ (List.getElem?_eq_getElem rightInside)]
  exact less

/-- The ring retains the frozen records from some round on, if it holds just
the records of those rounds. -/
theorem retained_eq_drop
    (kept : ∀ round, start ≤ round → round < ledger.round →
      (ledger.frames (RoundRing.indexOf round)).record = frozen[round]?)
    (only : ∀ round, round < ledger.round → ledger.round ≤ round + numStoredRounds →
      (ledger.frames (RoundRing.indexOf round)).record ≠ none → start ≤ round) :
    ledger.retainedRecords = frozen.drop start := by
  have indexed : ∀ index record, (ledger.frames index).record = some record →
      RoundRing.indexOf record.round = index ∧
        record.round < ledger.round ∧
        ledger.round ≤ record.round + numStoredRounds ∧
        frozen[record.round]? = some record := by
    intro index record held
    obtain ⟨round, earlier, near, index_eq, found⟩ := records.stores.record_eq held
    rw [records.round_eq round record found]
    exact ⟨index_eq, earlier, near, found⟩
  apply Lists.insertionSort_key_eq
  · exact records.ascending.sublist (List.drop_sublist _ _)
  · refine List.Nodup.filterMap ?_ (List.nodup_finRange _)
    intro left right record leftHeld rightHeld
    rw [← (indexed left record leftHeld).1, ← (indexed right record rightHeld).1]
  · intro record
    rw [List.mem_filterMap, Lists.mem_drop_iff]
    constructor
    · rintro ⟨index, _, held⟩
      obtain ⟨index_eq, earlier, near, found⟩ := indexed index record held
      refine ⟨record.round, ?_, found⟩
      refine only record.round earlier near ?_
      rw [index_eq, held]
      simp
    · rintro ⟨round, above, found⟩
      have earlier : round < ledger.round := by
        rw [← records.length_eq]
        exact (List.getElem?_eq_some_iff.mp found).1
      exact ⟨RoundRing.indexOf round, List.mem_finRange _, (kept round above earlier).trans found⟩

/-- The tail of the frozen records, as first published. -/
theorem map_drop_eq (start : Nat) :
    (frozen.drop start).map some =
      (List.range' start (ledger.round - start)).map (firstRecord outputs) := by
  apply List.ext_getElem
  · simp [records.length_eq]
  · intro offset inside _
    have earlier : start + offset < ledger.round := by
      rw [← records.length_eq]
      simp only [List.length_map, List.length_drop] at inside
      omega
    simp only [List.getElem_map, List.getElem_drop, List.getElem_range', one_mul]
    rw [records.firstRecord_eq earlier, List.getElem?_eq_getElem]

end

end Records

/-- The ring retains the history from `replayStart` on. -/
theorem retainedRecords_eq (records : Records outputs state.ledger frozen) :
    state.ledger.retainedRecords = frozen.drop (replayStart state) := by
  have installed : (state.rounds.get state.round).isSome = true ↔
      state.ledger.currentFrame.round = state.ledger.round := by
    rw [RoundRing.get, Option.isSome_ite]
    rfl
  have round_eq : state.ledger.round = state.round := rfl
  -- a round one ring back shares its place with the current one
  have shared : ∀ round, round + numStoredRounds = state.round →
      state.ledger.frames (RoundRing.indexOf round) = state.ledger.currentFrame := by
    intro round apart
    rw [Ledger.currentFrame, round_eq, ← apart]
    congr 1
    apply Fin.ext
    simp [RoundRing.indexOf]
  apply records.retained_eq_drop
  · intro round above earlier
    unfold replayStart at above
    have near : state.ledger.round ≤ round + numStoredRounds := by
      split at above
      · omega
      split at above
      · unfold numStoredRounds at *
        omega
      · omega
    rcases records.stores.stored round earlier near with
      ⟨_, stored⟩ | ⟨apart, held, _⟩
    · exact stored
    · rw [if_neg (by omega), if_pos (installed.mpr held)] at above
      unfold numStoredRounds at *
      omega
  · intro round earlier near nonempty
    unfold replayStart
    split
    · omega
    split
    · rename_i isInstalled
      by_contra below
      have apart : round + numStoredRounds = state.round := by
        unfold numStoredRounds at *
        omega
      rcases records.stores.stored round earlier near with
        ⟨stored_round, _⟩ | ⟨_, _, empty⟩
      · rw [shared round apart, installed.mp isInstalled] at stored_round
        omega
      · rw [shared round apart] at nonempty
        exact nonempty empty
    · omega

/-- Admission reads the roster through its ledger only. -/
theorem admitJoin_stampSigner (state : CoordinatorState) (signer : PeerId)
    (candidate : JoinCandidate) :
    admitJoin (stampSigner state signer).config (stampSigner state signer).phase
        (stampSigner state signer).roster (stampSigner state signer).pending candidate =
      admitJoin state.config state.phase state.roster state.pending candidate := by
  change admitJoin state.config state.phase _ state.pending candidate = _
  have duplicate : activeDuplicate (stampSigner state signer).roster state.pending
      candidate.peer = activeDuplicate state.roster state.pending candidate.peer := by
    rw [Bool.eq_iff_iff]
    have stamped := (stampSigner state signer).activeDuplicate_iff_occupied candidate.peer
    rw [stampSigner_ledger] at stamped
    exact stamped.trans (state.activeDuplicate_iff_occupied candidate.peer).symm
  have filled : occupancy (stampSigner state signer).roster state.pending =
      occupancy state.roster state.pending := by
    have stamped := (stampSigner state signer).ledger_occupancy
    rw [stampSigner_ledger, state.ledger_occupancy] at stamped
    exact stamped.symm
  unfold admitJoin
  rw [duplicate, filled]

theorem onJoin_replays
    (accepted : admitJoin state.config state.phase state.roster state.pending
        ⟨signer, version, join, join.envelopeHash⟩ = .ok () ∨
      admitJoin state.config state.phase state.roster state.pending
        ⟨signer, version, join, join.envelopeHash⟩ = .error .duplicatePeer) :
    ∃ after, onJoin state signer version join =
      some (after, .note (.admitted signer) :: state.ledger.replay) := by
  unfold onJoin
  rw [← CoordinatorState.replayForward_eq_replay]
  rcases accepted with admitted | duplicate
  · rw [admitted]
    dsimp only
    split <;> exact ⟨_, rfl⟩
  · rw [duplicate]
    exact ⟨_, rfl⟩

theorem standing_map_some (active : ActiveInv prims ledger) (inv : StandingInv outputs ledger) :
    ledger.standingOpen.toList.map some =
      if ledger.phase.isRoundActive then [lastOpen outputs ledger.round]
      else [] := by
  unfold Ledger.standingOpen
  split
  · rename_i isActive
    have rests := active isActive
    obtain ⟨opening, retained, _⟩ := rests.opening
    rw [if_pos rests.held, inv isActive, retained]
    rfl
  · rfl

/-- Along every run the standing opening is the one published last. -/
theorem TickRun.standingInv (run : TickRun mode prims config seed nowS trace state) :
    StandingInv (emitted trace) state.ledger := by
  have history := (run_refines run).history
    (fun trace ledger => ActiveInv prims ledger ∧ StandingInv (emitted trace) ledger)
    ⟨fun active => (by cases active), fun active => (by cases active)⟩ ?_
  · simpa using history.2
  · rintro trace ledger input after outputs _ ⟨active, inv⟩ stepped
    rw [emitted_append, emitted_singleton]
    exact ⟨active.step stepped, inv.step active stepped⟩

/-- In every state a run without overflow reaches, a join that is admitted or
is a duplicate publishes the records of the rounds from `replayStart` to the
last frozen one, ascending and each as first published, then, if a round is
active, the opening published last for it, and nothing else. -/
theorem replay_forward_complete {message : SignedMessage} {join : Join}
    (run : TickRun .trap prims config seed nowS trace state)
    (running : state.phase.isHalted = false) (payload_eq : message.payload = .join join)
    (version_eq : message.version = config.protoVersion) (verified : message.verify prims = true)
    (accepted :
      admitJoin config state.phase state.roster state.pending
          ⟨message.signer, message.version, join, join.envelopeHash⟩ = .ok () ∨
        admitJoin config state.phase state.roster state.pending
          ⟨message.signer, message.version, join, join.envelopeHash⟩ = .error .duplicatePeer) :
    ∃ (after : CoordinatorState) (outputs : List Output)
        (records : List RoundRecord) (standing : List RoundOpen),
      tick .trap prims state (.message message) = some (after, outputs) ∧
      publishedMessages outputs =
        records.map VhcMessage.roundRecord ++ standing.map VhcMessage.roundOpen ∧
      records.map some =
        (List.range' (replayStart state) (state.round - replayStart state)).map
          (firstRecord (emitted trace)) ∧
      standing.map some =
        if state.phase.isRoundActive then [lastOpen (emitted trace) state.round]
        else [] := by
  obtain ⟨frozen, records⟩ := run.records
  have config_eq := run.config_eq
  obtain ⟨after, joined⟩ := @onJoin_replays message.signer message.version join
    (stampSigner state message.signer) (by rwa [admitJoin_stampSigner, config_eq])
  rw [stampSigner_ledger] at joined
  refine ⟨after, .note (.admitted message.signer) :: state.ledger.replay,
    frozen.drop (replayStart state), state.ledger.standingOpen.toList, ?_, ?_,
    ?_, ?_⟩
  · simp only [tick, onMessage, config_eq, version_eq, verified, running,
      dispatchPayload, payload_eq, handlePayload] at joined ⊢
    simpa using joined
  · rw [← retainedRecords_eq records]
    change publishedMessages state.ledger.replay = _
    simp only [Ledger.replay, publishedMessages_append]
    simp only [publishedMessages, List.filterMap_map, Function.comp_def, Output.published?]
    simp
  · exact records.map_drop_eq (replayStart state)
  · exact standing_map_some run.activeInv run.standingInv

/-- A long run of one member that is never dropped. -/
def longConfig : RunConfig :=
  { sampleConfig with kAbsences := 0, stop := .rounds 100 }

/-- Seventeen rounds closed by their deadlines, the next one open. -/
def longSample : List Input :=
  [sampleJoin (samplePeer 1), .clock 1] ++ (List.range 35).map fun tick => .clock (20 * (tick + 1))

/-- A member joins again once the ring has wrapped: it is sent the records of
rounds 2 to 16 and the standing opening of round 17. -/
theorem replay_forward_complete_sample :
    ∃ (trace : List (Step CoordinatorState Input Output))
        (state after : CoordinatorState) (outputs : List Output)
        (records : List RoundRecord) (standing : List RoundOpen),
      TickRun .trap samplePrimitives longConfig (Bytes.fill 32 7) 0 trace state ∧
      (state.round = 17 ∧ replayStart state = 2 ∧ state.phase.isRoundActive = true) ∧
      tick .trap samplePrimitives state (sampleJoin (samplePeer 1)) = some (after, outputs) ∧
      publishedMessages outputs =
        records.map VhcMessage.roundRecord ++ standing.map VhcMessage.roundOpen ∧
      records.map some = (List.range' 2 15).map (firstRecord (emitted trace)) ∧
      standing.map some = [lastOpen (emitted trace) 17] := by
  obtain ⟨trace, state, run, ⟨round_eq, start_eq, active⟩, running, declined⟩ :=
    sampleRun_of_checked longConfig longSample (fun _ state =>
      (state.round = 17 ∧ replayStart state = 2 ∧ state.phase.isRoundActive = true) ∧
      state.phase.isHalted = false ∧
      admitJoin longConfig state.phase state.roster state.pending
        ⟨samplePeer 1, 2, sampleRequest (samplePeer 1), none⟩ = .error .duplicatePeer)
      (by decide +kernel)
  have payload_eq : (sampleFrame (samplePeer 1)
      (.join (sampleRequest (samplePeer 1)))).payload = .join (sampleRequest (samplePeer 1)) := rfl
  obtain ⟨after, outputs, records, standing, stepped, published, window, last⟩ :=
    replay_forward_complete run running payload_eq rfl rfl (.inr declined)
  rw [round_eq, start_eq] at window
  rw [if_pos active, round_eq] at last
  exact ⟨trace, state, after, outputs, records, standing, run,
    ⟨round_eq, start_eq, active⟩, stepped, published, window, last⟩

end DaemonNode.Coordinator
