import DaemonNode.Coordinator.History

/-!
# Pausing and resuming

An operator may pause a run in any running phase and resume it later, and a
resumed run waits for members again. Two promises of the other paths into
that phase are not kept on this one: the cooldown of a stopped run ends in
`finished`, and the end of an epoch seats the staged joins.
-/

namespace DaemonNode.Coordinator

open Machine
open Word (Overflow)
open Ledger (Opens Freezes upsertSeat)

/-- The phases a stopped run may be in. -/
def Phase.isStopping : Phase → Bool
  | .cooldown | .finished | .paused => true
  | _ => false

theorem Phase.isStopping.not_active {phase : Phase} (stopping : phase.isStopping = true) :
    phase.isRoundActive = false := by
  cases phase <;> simp_all [Phase.isStopping, Phase.isRoundActive]

/-- A stopped run is cooling down, finished or paused. -/
def StopInv (ledger : Ledger) : Prop :=
  ledger.stopReached = true → ledger.phase.isStopping = true

namespace StopInv

variable {ledger after : Ledger}

/-- The stop condition reads the configuration and the counters. -/
theorem stopReached_congr (config_eq : after.config = ledger.config)
    (tokens_eq : after.tokensDone = ledger.tokensDone)
    (rounds_eq : after.roundsDone = ledger.roundsDone) :
    after.stopReached = ledger.stopReached := by
  unfold Ledger.stopReached
  rw [config_eq, tokens_eq, rounds_eq]

theorem not_stopped (inv : StopInv ledger) (running : ledger.phase.isStopping = false) :
    ledger.stopReached = false := by
  by_contra stopped
  rw [inv (by simpa using stopped)] at running
  cases running

/-- A run that is not stopped need not be in those phases. -/
theorem of_running (running : ledger.stopReached = false)
    (same : after.stopReached = ledger.stopReached) :
    StopInv after := by
  intro stopped
  rw [same, running] at stopped
  cases stopped

/-- Opening a round of a running ledger keeps it running. -/
theorem of_opens (running : ledger.stopReached = false)
    (opened : Opens mode prims ledger opening after) :
    StopInv after :=
  .of_running running (by rw [opened.after_eq]; rfl)

/-- Every move keeps a stopped run in its phases. -/
theorem move (inv : StopInv ledger) (moved : Move mode prims ledger outputs after) :
    StopInv after := by
  -- moves that leave a running phase start from a run that is not stopped
  have leaves (phase : Phase) (running : ledger.phase.isStopping = false) :
      StopInv { ledger with phase := phase } :=
    .of_running (inv.not_stopped running) rfl
  cases moved with
  | silent | decay | seat | stage | rejoin => exact inv
  | enterWarmup running | floorBreach running | toWitness running =>
    exact leaves _ (by rw [running]; rfl)
  | openFirst warming _ opened => exact of_opens (inv.not_stopped (by rw [warming]; rfl)) opened
  | conclude | pause => exact fun _ => rfl
  | drain _ running => exact .of_running running rfl

/-- Closing a round cools down or opens the next round of a running
ledger. -/
theorem closing (closed : Closing mode prims ledger outputs after) : StopInv after := by
  cases closed with
  | cool => exact fun _ => rfl
  | advance _ _ running _ opened => exact of_opens running opened

/-- Every step but the resume of a stopped run keeps it. -/
theorem step (inv : StopInv ledger)
    (unresumed : ledger.phase = .paused → ledger.stopReached = true →
      ¬ResumeAccepted prims ledger.config input)
    (stepped : LedgerStep mode prims ledger input outputs after) :
    StopInv after := by
  cases stepped with
  | resume paused accepted =>
    intro stopped
    exact absurd accepted (unresumed paused stopped)
  | progress progress =>
    exact progress.invariant StopInv (fun _ _ _ => move) (fun _ _ _ _ => closing) inv

end StopInv

/-- What a stopped run still does: it publishes no opening, counts nothing,
and stays in its phases. -/
structure StaysStopped (before : Ledger) (outputs : List Output)
    (after : Ledger) : Prop where
  unopened : publishedOpens outputs = []
  config_eq : after.config = before.config
  tokens_eq : after.tokensDone = before.tokensDone
  rounds_eq : after.roundsDone = before.roundsDone
  stopping : after.phase.isStopping = true

namespace StaysStopped

/-- Moves of a stopped run. -/
theorem move (stopped : before.stopReached = true) (stays : StaysStopped before earlier ledger)
    (moved : Move mode prims ledger outputs after) :
    StaysStopped before (earlier ++ outputs) after := by
  obtain ⟨unopened, config_eq, tokens_eq, rounds_eq, stopping⟩ := stays
  have quiet : ∀ more : List Output, publishedOpens more = [] →
      publishedOpens (earlier ++ more) = [] := by
    intro more silent
    rw [publishedOpens_append, unopened, silent]
    rfl
  have replayed : ∀ peer, publishedOpens (.note (.admitted peer) :: ledger.replay) = [] := by
    intro peer
    change publishedOpens ledger.replay = []
    rw [publishedOpens_replay, Ledger.standingOpen, Phase.isStopping.not_active stopping]
    rfl
  have still : ledger.stopReached = true := by
    rw [StopInv.stopReached_congr config_eq tokens_eq rounds_eq]
    exact stopped
  cases moved with
  | silent silent | decay _ _ silent =>
    exact ⟨quiet _ silent.publishedOpens_eq, config_eq, tokens_eq, rounds_eq, stopping⟩
  | enterWarmup running | floorBreach running | openFirst running
  | toWitness running =>
    rw [running] at stopping
    cases stopping
  | drain _ running =>
    rw [running] at still
    cases still
  | conclude | pause => exact ⟨quiet _ rfl, config_eq, tokens_eq, rounds_eq, rfl⟩
  | seat | stage | rejoin => exact ⟨quiet _ (replayed _), config_eq, tokens_eq, rounds_eq, stopping⟩

theorem step (inv : StopInv ledger) (stopped : ledger.stopReached = true)
    (unresumed : ledger.phase = .paused → ledger.stopReached = true →
      ¬ResumeAccepted prims ledger.config input)
    (stepped : LedgerStep mode prims ledger input outputs after) :
    StaysStopped ledger outputs after := by
  cases stepped with
  | resume paused accepted => exact absurd accepted (unresumed paused stopped)
  | progress progress =>
    have starts : StaysStopped ledger [] ledger := ⟨rfl, rfl, rfl, rfl, inv stopped⟩
    exact progress.accumulate (StaysStopped ledger)
      (fun _ _ _ _ stays moved => stays.move stopped moved)
      (fun _ _ _ _ stays closed => by
        have stopping := stays.stopping
        rw [closed.phase_eq] at stopping
        cases stopping) starts

/-- The stop condition stays met. -/
theorem stopReached_eq (stays : StaysStopped before outputs after) :
    after.stopReached = before.stopReached :=
  StopInv.stopReached_congr stays.config_eq stays.tokens_eq stays.rounds_eq

end StaysStopped

/-- A count of rounds that stops the run is not exceeded. -/
def CountInv (ledger : Ledger) : Prop :=
  ∀ target, ledger.config.stop = .rounds target → ledger.roundsDone ≤ target

namespace CountInv

/-- A round is closed only before the count is reached. -/
theorem closing (stop : StopInv ledger) (closed : Closing mode prims ledger outputs after) :
    CountInv after := by
  have running := stop.not_stopped (by rw [closed.phase_eq]; rfl)
  intro target stop_eq
  rw [closed.config_eq] at stop_eq
  have below : ledger.roundsDone < target := by
    simp only [Ledger.stopReached, stop_eq, decide_eq_false_iff_not] at running
    omega
  have counted := Overflow.add_le closed.rounds_eq.2
  omega

/-- Every step keeps the count below its target. -/
theorem step (stop : StopInv ledger) (inv : CountInv ledger)
    (stepped : LedgerStep mode prims ledger input outputs after) :
    CountInv after := by
  cases stepped with
  | resume => exact inv
  | progress progress =>
    have both := progress.invariant (fun later => StopInv later ∧ CountInv later) ?_ ?_ ⟨stop, inv⟩
    · exact both.2
    · rintro before outputs later ⟨stop, inv⟩ moved
      refine ⟨stop.move moved, ?_⟩
      intro target stop_eq
      rw [moved.rounds_eq.2]
      exact inv target (moved.config_eq ▸ stop_eq)
    · rintro before outputs later ⟨stop, -⟩ closed
      exact ⟨.closing closed, CountInv.closing stop closed⟩

end CountInv

section Runs

variable {trace : List (Step CoordinatorState Input Output)}
variable {state : CoordinatorState}

/-- What a run keeps that never resumes from a stop. -/
structure StoppedHistory
    (trace : List (Step CoordinatorState Input Output))
    (state : CoordinatorState) : Prop where
  stop : StopInv state.ledger
  count : CountInv state.ledger
  lasting : ∀ recorded ∈ trace, stopReached recorded.after = true → stopReached state = true
  /-- Nothing is opened or finalised after the stop. -/
  quiet : trace.Pairwise fun first later => stopReached first.after = true →
    publishedOpens later.output = [] ∧ ¬Finalises later.before later.after

/-- Runs that never resume from a stop keep it. -/
theorem TickRun.stoppedHistory (run : TickRun mode prims config seed nowS trace state)
    (running : stopReached (CoordinatorState.new config seed nowS) = false)
    (unresumed : ∀ recorded ∈ trace, recorded.before.phase = .paused →
      stopReached recorded.before = true →
      ¬ResumeAccepted prims config recorded.input) :
    StoppedHistory trace state := by
  induction run with
  | nil =>
    refine ⟨?_, ?_, by simp, .nil⟩
    · intro stopped
      rw [CoordinatorState.ledger_stopReached, running] at stopped
      cases stopped
    · intro target _
      exact Nat.zero_le target
  | @snoc trace state input after output run stepped ih =>
    obtain ⟨before, resumes⟩ := Lists.forall_mem_concat.mp unresumed
    obtain ⟨stop, count, lasting, quiet⟩ := ih before
    have refined := tick_refines stepped
    rw [← TickRun.config_eq run] at resumes
    have stays : stopReached state = true →
        StaysStopped state.ledger output after.ledger := fun stopped =>
      .step stop stopped resumes refined
    refine ⟨stop.step resumes refined, count.step stop refined, ?_, ?_⟩
    · refine Lists.forall_mem_concat.mpr ⟨fun recorded older stopped => ?_, id⟩
      have reached := lasting recorded older stopped
      exact (stays reached).stopReached_eq.trans reached
    · refine List.pairwise_append.mpr ⟨quiet, List.pairwise_singleton _ _, ?_⟩
      intro first member later newest stopped
      obtain rfl := List.mem_singleton.mp newest
      have quiet := stays (lasting first member stopped)
      exact ⟨quiet.unopened, fun finalises => finalises quiet.rounds_eq⟩

/-- In a run that starts short of its stop condition and never resumes from
it, no opening is published and no round finalised once the condition is met;
a run bounded by a number of rounds finalises no more of them. -/
theorem stop_is_final (run : TickRun mode prims config seed nowS trace state)
    (running : stopReached (CoordinatorState.new config seed nowS) = false)
    (unresumed : ∀ recorded ∈ trace, recorded.before.phase = .paused →
      stopReached recorded.before = true →
      ¬ResumeAccepted prims config recorded.input) :
    (trace.Pairwise fun first later => stopReached first.after = true →
      publishedOpens later.output = [] ∧ ¬Finalises later.before later.after) ∧
    ∀ target, config.stop = .rounds target → state.roundsDone ≤ target := by
  have history := run.stoppedHistory running unresumed
  refine ⟨history.quiet, ?_⟩
  intro target stop_eq
  exact history.count target (by rw [CoordinatorState.ledger_config, run.config_eq, stop_eq])

end Runs

/-- Two peers train both rounds of the sample run, which is paused and resumed
before it starts. -/
def stoppedSample : List Input :=
  [sampleJoin (samplePeer 1), sampleJoin (samplePeer 2), sampleControl .pause,
    sampleControl .resume, .clock 1, .clock 20, .clock 40, .clock 60, .clock 80,
    .clock 100]

theorem stop_is_final_sample :
    ∃ trace state,
      TickRun .trap samplePrimitives sampleConfig (Bytes.fill 32 7) 0 trace state ∧
        stopReached state = true ∧
        (trace.Pairwise fun first later => stopReached first.after = true →
          publishedOpens later.output = [] ∧ ¬Finalises later.before later.after) ∧
        ∀ target, sampleConfig.stop = .rounds target → state.roundsDone ≤ target := by
  obtain ⟨trace, state, run, stopped, paused⟩ := sampleRun_of_checked sampleConfig
    (stoppedSample ++ [.clock 120]) (fun trace state => stopReached state = true ∧
      ∀ recorded ∈ trace, recorded.before.phase = .paused → stopReached recorded.before = false)
    (by decide +kernel)
  refine ⟨trace, state, run, stopped, stop_is_final run (by decide +kernel) ?_⟩
  intro recorded member halted reached
  rw [paused recorded member halted] at reached
  cases reached

/-- Paused in its cooldown and resumed, the stopped sample run opens and
finalises a third round. -/
theorem resumed_stop_reopens :
    stopReached (sampleStart sampleConfig) = false ∧
      sampleConfig.stop = .rounds 2 ∧
      ∃ trace state,
        TickRun .trap samplePrimitives sampleConfig (Bytes.fill 32 7) 0 trace state ∧
          (∃ recorded ∈ trace, stopReached recorded.before = true ∧
            publishedOpens recorded.output ≠ []) ∧
          (∃ recorded ∈ trace, stopReached recorded.before = true ∧
            Finalises recorded.before recorded.after) ∧
          state.roundsDone = 3 := by
  refine ⟨by decide +kernel, rfl, ?_⟩
  exact sampleRun_of_checked sampleConfig (stoppedSample ++ [sampleControl .pause,
    sampleControl .resume, .clock 101, .clock 120, .clock 140, .clock 160]) _ (by decide +kernel)

/-- The phases in which a roster forms. -/
def Phase.isForming : Phase → Bool
  | .waitingForMembers | .warmup => true
  | _ => false

/-- While a roster forms, no join is staged. -/
def FormInv (ledger : Ledger) : Prop :=
  ledger.phase.isForming = true → ledger.staged = []

namespace FormInv

/-- Every move keeps it; the end of the cooldown seats what is staged. -/
theorem move (inv : FormInv ledger) (moved : Move mode prims ledger outputs after) :
    FormInv after := by
  cases moved with
  | silent | decay | seat | rejoin => exact inv
  | enterWarmup waiting => exact fun _ => inv (by rw [waiting]; rfl)
  | floorBreach warming => exact fun _ => inv (by rw [warming]; rfl)
  | openFirst _ _ opened =>
    rw [opened.after_eq]
    nofun
  | drain => exact fun _ => rfl
  | stage _ active =>
    intro forming
    change ledger.phase.isForming = true at forming
    exfalso
    cases phase_eq : ledger.phase <;> simp_all [Phase.isForming]
  | toWitness | conclude | pause => nofun

/-- No roster forms right after a round is closed. -/
theorem closing (closed : Closing mode prims ledger outputs after) : FormInv after := by
  cases closed with
  | cool => nofun
  | advance _ _ _ _ opened =>
    rw [opened.after_eq]
    nofun

/-- Every step but a resume with staged joins keeps it. -/
theorem step (inv : FormInv ledger)
    (unresumed : ledger.phase = .paused → ledger.staged ≠ [] →
      ¬ResumeAccepted prims ledger.config input)
    (stepped : LedgerStep mode prims ledger input outputs after) :
    FormInv after := by
  cases stepped with
  | resume paused accepted =>
    intro _
    by_contra staged
    exact unresumed paused staged accepted
  | progress progress =>
    exact progress.invariant FormInv (fun _ _ _ => move) (fun _ _ _ _ => closing) inv

end FormInv

/-- A peer holds a seat, healthy or not, or is staged. -/
def Ledger.Knows (ledger : Ledger) (peer : PeerId) : Prop :=
  peer ∈ ledger.seats.map Seat.peer ∨ peer ∈ ledger.staged.map Seat.peer

theorem Silent.admittedPeers_eq (silent : Silent outputs) : admittedPeers outputs = [] := by
  rw [admittedPeers, List.filterMap_eq_nil_iff]
  intro output member
  have quiet := silent output member
  cases output with
  | publish | reject => rfl
  | note notice => cases notice <;> simp_all [Output.isSilent, Output.admitted?]

/-- Draining seats the staged peers and forgets nobody. -/
theorem map_peer_drain {staged seats : List Seat}
    (known : peer ∈ seats.map Seat.peer ∨ peer ∈ staged.map Seat.peer) :
    peer ∈ (staged.foldl (fun seats seat => upsertSeat seat seats) seats).map Seat.peer := by
  induction staged generalizing seats with
  | nil => simpa using known
  | cons seat staged ih =>
    apply ih
    rcases known with seated | waiting
    · exact .inl (map_peer_subset_upsertSeat seat seats seated)
    · rcases List.mem_cons.mp waiting with rfl | later
      · exact .inl (List.mem_map_of_mem (self_mem_upsertSeat seat seats))
      · exact .inr later

/-- Every peer reported as admitted is known. -/
def AdmittedInv (outputs : List Output) (ledger : Ledger) : Prop :=
  ∀ peer ∈ admittedPeers outputs, ledger.Knows peer

namespace AdmittedInv

variable {mode : Overflow} {prims : Primitives}
variable {ledger after : Ledger} {earlier outputs : List Output}

section

variable (inv : AdmittedInv earlier ledger)

include inv

/-- Outputs that admit nobody keep it when nobody is forgotten. -/
theorem of_quiet (quiet : admittedPeers outputs = [])
    (kept : ∀ peer, ledger.Knows peer → after.Knows peer) :
    AdmittedInv (earlier ++ outputs) after := by
  intro peer told
  rw [admittedPeers_append, quiet, List.append_nil] at told
  exact kept peer (inv peer told)

/-- A join that is answered with a replay admits a known peer. -/
theorem of_join (joined : after.Knows joiner)
    (kept : ∀ peer, ledger.Knows peer → after.Knows peer) :
    AdmittedInv (earlier ++ .note (.admitted joiner) :: ledger.replay) after := by
  have newer : admittedPeers (.note (.admitted joiner) :: ledger.replay) = [joiner] := by
    simp [Ledger.replay, admittedPeers, List.filterMap_map, Function.comp_def, Output.admitted?]
  rw [AdmittedInv, admittedPeers_append, newer]
  exact Lists.forall_mem_concat.mpr ⟨fun peer older => kept peer (inv peer older), joined⟩

/-- Every move keeps it. -/
theorem move (moved : Move mode prims ledger outputs after) :
    AdmittedInv (earlier ++ outputs) after := by
  cases moved with
  | silent silent => exact inv.of_quiet silent.admittedPeers_eq fun _ known => known
  | decay _ thins silent =>
    refine inv.of_quiet silent.admittedPeers_eq fun peer known => ?_
    exact known.imp_left fun seated => thins.map_peer ▸ seated
  | openFirst _ _ opened =>
    refine inv.of_quiet rfl fun peer known => ?_
    rw [opened.after_eq]
    exact known
  | drain => exact inv.of_quiet rfl fun peer known => .inl (map_peer_drain known)
  | seat =>
    refine inv.of_join (.inl ?_) fun peer known => known.imp_left ?_
    · exact List.mem_map_of_mem (self_mem_upsertSeat _ _)
    · exact fun seated => map_peer_subset_upsertSeat _ _ seated
  | stage =>
    refine inv.of_join (.inr (by simp)) fun peer known => known.imp_right ?_
    intro waiting
    rw [List.map_append]
    exact List.mem_append_left _ waiting
  | rejoin _ occupied =>
    refine inv.of_join (occupied.imp_left fun seated => ?_) fun _ known => known
    exact List.mem_map_of_mem seated
  | enterWarmup | floorBreach | toWitness | conclude | pause =>
    exact inv.of_quiet rfl fun _ known => known

/-- Closing a round keeps it: dropped members keep their seats. -/
theorem closing (closed : Closing mode prims ledger outputs after) :
    AdmittedInv (earlier ++ outputs) after := by
  have kept : ∀ {record frozen}, Freezes mode prims ledger record frozen →
      ∀ peer, ledger.Knows peer → frozen.Knows peer := by
    intro record frozen freezing peer known
    rw [freezing.after_eq]
    exact known.imp_left fun seated => freezing.thins.map_peer ▸ seated
  cases closed with
  | cool freezing silent =>
    refine inv.of_quiet ?_ fun peer known => kept freezing peer known
    rw [admittedPeers_append, silent.admittedPeers_eq]
    rfl
  | advance freezing silent _ _ opened =>
    refine inv.of_quiet ?_ fun peer known => ?_
    · rw [admittedPeers_append, silent.admittedPeers_eq]
      rfl
    · rw [opened.after_eq]
      exact kept freezing peer known

/-- Every step keeps it. -/
theorem step (stepped : LedgerStep mode prims ledger input outputs after) :
    AdmittedInv (earlier ++ outputs) after := by
  cases stepped with
  | resume => exact inv.of_quiet rfl fun _ known => known
  | progress progress =>
    exact progress.accumulate AdmittedInv (fun _ _ _ _ => move) (fun _ _ _ _ => closing) inv

end

end AdmittedInv

/-- Every peer a run reported as admitted is on the roster or staged. -/
theorem TickRun.admittedInv (run : TickRun mode prims config seed nowS trace state) :
    AdmittedInv (emitted trace) state.ledger := by
  refine run.history (fun trace state =>
    AdmittedInv (emitted trace) state.ledger) (by simp [AdmittedInv, admittedPeers]) ?_
  intro trace state input after outputs _ inv stepped
  rw [emitted_append, emitted_singleton]
  exact inv.step (tick_refines stepped)

/-- A run that never resumes with staged joins has none while a roster
forms, in its last state and in every state before it. -/
theorem TickRun.formInv (run : TickRun mode prims config seed nowS trace state)
    (unresumed : ∀ recorded ∈ trace, recorded.before.phase = .paused →
      recorded.before.pending ≠ [] →
      ¬ResumeAccepted prims config recorded.input) :
    FormInv state.ledger ∧ ∀ recorded ∈ trace, FormInv recorded.after.ledger := by
  induction run with
  | nil => exact ⟨fun _ => rfl, by simp⟩
  | @snoc trace state input after output run stepped ih =>
    obtain ⟨sooner, resumes⟩ := Lists.forall_mem_concat.mp unresumed
    obtain ⟨inv, before⟩ := ih sooner
    rw [← TickRun.config_eq run] at resumes
    have inv' : FormInv after.ledger := by
      refine inv.step (fun paused staged => resumes paused ?_) (tick_refines stepped)
      intro pending
      exact staged (by rw [CoordinatorState.ledger_staged, pending]; rfl)
    exact ⟨inv', Lists.forall_mem_concat.mpr ⟨before, inv'⟩⟩

/-- No state of a run has joins pending while a roster forms exactly when no
resume is accepted with joins pending; and in such a run every peer ever
reported as admitted is on the roster that forms. -/
theorem pending_joins_applied (run : TickRun mode prims config seed nowS trace state) :
    ((∀ recorded ∈ trace, recorded.after.phase.isForming = true →
        recorded.after.pending = []) ↔
      ∀ recorded ∈ trace, recorded.before.phase = .paused →
        recorded.before.pending ≠ [] →
        ¬ResumeAccepted prims config recorded.input) ∧
    ((∀ recorded ∈ trace, recorded.before.phase = .paused →
        recorded.before.pending ≠ [] →
        ¬ResumeAccepted prims config recorded.input) →
      state.phase.isForming = true →
      state.pending = [] ∧
        ∀ peer ∈ admittedPeers (emitted trace), peer ∈ state.roster.map Member.peer) := by
  refine ⟨⟨?_, ?_⟩, ?_⟩
  · intro applied recorded member paused pending accepted
    obtain ⟨⟨earlier, reached⟩, stepped⟩ := run.before_reached member
    rw [← TickRun.config_eq reached] at accepted
    obtain ⟨request, input_eq, verified, run_eq, authorized, action_eq⟩ := accepted
    have resumed : tick mode prims recorded.before recorded.input =
        changePhase { recorded.before with pausedFrom := none } .waitingForMembers := by
      simp [tick, onControl, input_eq, verified, run_eq, authorized, action_eq, paused]
    obtain ⟨after_eq, -⟩ := Prod.mk.inj (Option.some.inj (resumed.symm.trans stepped))
    have kept := applied recorded member
    rw [← after_eq] at kept
    exact pending (kept rfl)
  · intro unresumed recorded member forming
    have staged := (run.formInv unresumed).2 recorded member forming
    exact List.map_eq_nil_iff.mp staged
  · intro unresumed forming
    have staged := (run.formInv unresumed).1 forming
    refine ⟨List.map_eq_nil_iff.mp staged, ?_⟩
    intro peer told
    rcases run.admittedInv peer told with seated | waiting
    · simpa using seated
    · rw [staged] at waiting
      cases waiting

/-- The second peer joins while the first one trains round 0. -/
def stagedSample : List Input :=
  [sampleJoin (samplePeer 1), .clock 1, .clock 20, sampleJoin (samplePeer 2)]

/-- A run in which the staged peer is seated after the cooldown. -/
theorem pending_joins_applied_sample :
    ∃ trace state,
      TickRun .trap samplePrimitives { sampleConfig with epochRounds := 1 }
          (Bytes.fill 32 7) 0 trace state ∧
        state.phase.isForming = true ∧
        state.pending = [] ∧
        ∀ peer ∈ admittedPeers (emitted trace), peer ∈ state.roster.map Member.peer := by
  obtain ⟨trace, state, run, forming, unpaused⟩ := sampleRun_of_checked
    { sampleConfig with epochRounds := 1 } (stagedSample ++ [.clock 40, .clock 60, .clock 80])
    (fun trace state => state.phase.isForming = true ∧
      ∀ recorded ∈ trace, recorded.before.phase ≠ .paused) (by decide +kernel)
  refine ⟨trace, state, run, forming, (pending_joins_applied run).2 ?_ forming⟩
  intro recorded member paused
  exact absurd paused (unpaused recorded member)

/-- Paused and resumed, the sample run forms a roster without the peer it has
admitted. -/
theorem resumed_pending_left_out :
    ∃ trace state,
      TickRun .trap samplePrimitives sampleConfig (Bytes.fill 32 7) 0 trace state ∧
        state.phase = .warmup ∧
        state.pending.map Member.peer = [samplePeer 2] ∧
        samplePeer 2 ∈ admittedPeers (emitted trace) ∧
        samplePeer 2 ∉ state.roster.map Member.peer := by
  exact sampleRun_of_checked sampleConfig
    (stagedSample ++ [sampleControl .pause, sampleControl .resume, .clock 21]) _ (by decide +kernel)

end DaemonNode.Coordinator
