import DaemonNode.Coordinator.History
import DaemonNode.Rounds.Barrier

/-!
# Ingests along a run of the barrier driver

An ingest begins and later completes, at once or by a finishing call. The
abstract model is a ledger of these milestones: a round begins only above the
watermark and with nothing in flight, and only the round in flight completes.
Every run of the driver, seen through its milestones, is such a ledger, so
rounds are ingested at most once, in ascending order and one at a time.

The ledger lets a round begin anywhere above the watermark: a record that was
refused for a gap stays in the queue, and the next call that enters the ingest
loop takes it.
-/

namespace DaemonNode.Rounds

open Bytes (fill)
open Machine
open List (append_nil)

/-- What happens to an ingest. -/
inductive Milestone
  | began (round : Nat)
  | completed (round : Nat) (digest : StateDigest)
  deriving DecidableEq

/-- `Serial mark log last flying`: ingests that start from the watermark `mark`
and happen as in `log` leave the watermark `last` and the round `flying`
begun but not completed. -/
inductive Serial (mark : Option Nat) :
    List Milestone → Option Nat → Option Nat → Prop
  | start : Serial mark [] mark none
  | begin {log : List Milestone} {last : Option Nat} {round : Nat} :
      Serial mark log last none →
      (∀ watermark ∈ last, watermark < round) →
      Serial mark (log ++ [.began round]) (some round) (some round)
  | complete {log : List Milestone} {last : Option Nat} {round : Nat}
      (digest : StateDigest) :
      Serial mark log last (some round) →
      Serial mark (log ++ [.completed round digest]) last none

def begunRounds (log : List Milestone) : List Nat :=
  log.filterMap fun
    | .began round => some round
    | .completed _ _ => none

/-- The ingests completed, in order. -/
def completions (log : List Milestone) : List (Nat × StateDigest) :=
  log.filterMap fun
    | .began _ => none
    | .completed round digest => some (round, digest)

@[simp] theorem begunRounds_append (first second : List Milestone) :
    begunRounds (first ++ second) = begunRounds first ++ begunRounds second :=
  List.filterMap_append

@[simp] theorem completions_append (first second : List Milestone) :
    completions (first ++ second) = completions first ++ completions second :=
  List.filterMap_append

@[simp] theorem begunRounds_began (round : Nat) :
    begunRounds [.began round] = [round] := rfl

@[simp] theorem begunRounds_completed (round : Nat) (digest : StateDigest) :
    begunRounds [.completed round digest] = [] := rfl

@[simp] theorem completions_began (round : Nat) :
    completions [.began round] = [] := rfl

@[simp] theorem completions_completed (round : Nat) (digest : StateDigest) :
    completions [.completed round digest] = [(round, digest)] := rfl

variable {round : Nat}

namespace Serial

/-- The rounds begun are those completed and the one in flight. -/
theorem begunRounds_eq (serial : Serial mark log last flying) :
    begunRounds log = (completions log).map Prod.fst ++ flying.toList := by
  induction serial with
  | start => rfl
  | begin _ _ ih => simp [ih]
  | complete digest _ ih => simp [ih]

/-- The watermark never falls below the initial one or a round begun. -/
theorem le_last (serial : Serial mark log last flying)
    (reached : round ∈ mark ∨ round ∈ begunRounds log) :
    ∃ watermark ∈ last, round ≤ watermark := by
  induction serial with
  | start =>
    rcases reached with marked | begun
    · exact ⟨round, marked, le_rfl⟩
    · simp [begunRounds] at begun
  | @begin log last newest _ above ih =>
    refine ⟨newest, rfl, ?_⟩
    rw [begunRounds_append, List.mem_append, ← or_assoc] at reached
    rcases reached with older | same
    · obtain ⟨watermark, held, below⟩ := ih older
      exact below.trans (above watermark held).le
    · exact (List.mem_singleton.mp same).le
  | complete digest _ ih =>
    apply ih
    simpa using reached

/-- Rounds begin in strictly ascending order, above the initial watermark. -/
theorem ascending (serial : Serial mark log last flying) :
    (mark.toList ++ begunRounds log).Pairwise (· < ·) := by
  induction serial with
  | start => cases mark <;> simp [begunRounds]
  | @begin log last round earlier above ih =>
    rw [begunRounds_append, ← List.append_assoc, begunRounds_began, List.pairwise_append]
    refine ⟨ih, List.pairwise_singleton _ _, ?_⟩
    intro older member newest same
    obtain rfl := List.mem_singleton.mp same
    have reached : older ∈ mark ∨ older ∈ begunRounds log := by
      simpa using member
    obtain ⟨watermark, held, below⟩ := earlier.le_last reached
    exact below.trans_lt (above watermark held)
  | complete digest _ ih => simpa using ih

/-- What a milestone finds: a round begins when all others have completed, and completes as
the last one begun. -/
def Orderly (earlier : List Milestone) : Milestone → Prop
  | .began _ => begunRounds earlier = (completions earlier).map Prod.fst
  | .completed round _ => begunRounds earlier = (completions earlier).map Prod.fst ++ [round]

theorem orderly (serial : Serial mark log last flying) :
    ∀ earlier item later, log = earlier ++ item :: later → Orderly earlier item := by
  induction serial with
  | start =>
    intro earlier item later parted
    simp at parted
  | begin before above ih =>
    intro earlier item later parted
    rcases Lists.concat_eq_append_cons_iff.mp parted with ⟨rfl, rfl, -⟩ | ⟨shorter, inside, -⟩
    · exact before.begunRounds_eq.trans (append_nil _)
    · exact ih earlier item shorter inside
  | complete digest before ih =>
    intro earlier item later parted
    rcases Lists.concat_eq_append_cons_iff.mp parted with ⟨rfl, rfl, -⟩ | ⟨shorter, inside, -⟩
    · exact before.begunRounds_eq
    · exact ih earlier item shorter inside

end Serial

section Milestones

variable {E P S : Type}

def finishMilestone (driver : BarrierRound E) : Call S → List Milestone
  | .finishIngest round digest _ =>
    if driver.deferred.any fun deferred => deferred.round = round then [.completed round digest]
    else []
  | _ => []

/-- The milestones of an effect: a fold that is ready at once also completes. -/
def Effect.milestones : Effect P → List Milestone
  | .ingest begun =>
    match begun.outcome with
    | .ready digest => [.began begun.round, .completed begun.round digest]
    | .deferred => [.began begun.round]
  | .sent _ => []

def ingestMilestones (effects : List (Effect P)) : List Milestone :=
  effects.flatMap Effect.milestones

/-- The milestones of a run. -/
def milestones (trace : List (Step (BarrierRound E) (Call S) (Effect P))) :
    List Milestone :=
  trace.flatMap fun recorded =>
    finishMilestone recorded.before recorded.input ++ ingestMilestones recorded.output

/-- The finished ingest an action announces. -/
def Outbound.announced : Outbound → Option (Nat × StateDigest)
  | .roundComplete round digest => some (round, digest)
  | .caughtUp round digest => some (round, digest)
  | _ => none

/-- The finished ingests a list of effects announces, in order. -/
def announcements (effects : List (Effect P)) : List (Nat × StateDigest) :=
  effects.filterMap fun
    | .ingest _ => none
    | .sent action => action.announced

def Call.entriesFor (round : Nat) : Call S → Option (List RecordEntry)
  | .roundRecord record entries _ => if record.round = round then some entries else none
  | _ => none

/-- The entries of the last record delivered for a round. -/
def lastRecord (calls : List (Call S)) (round : Nat) : Option (List RecordEntry) :=
  (calls.filterMap (Call.entriesFor round)).getLast?

@[simp] theorem ingestMilestones_append (first second : List (Effect P)) :
    ingestMilestones (first ++ second) = ingestMilestones first ++ ingestMilestones second :=
  List.flatMap_append

@[simp] theorem announcements_append (first second : List (Effect P)) :
    announcements (first ++ second) = announcements first ++ announcements second :=
  List.filterMap_append

@[simp] theorem announced_voice (onTime : Bool) (round : Nat) (digest : StateDigest) :
    (BarrierRound.voice onTime round digest).announced = some (round, digest) := by
  cases onTime <;> rfl

end Milestones

namespace BarrierRound

variable {E P S : Type} {setting : Setting E P S}

inductive Ingest (setting : Setting E P S) (driver : BarrierRound E) :
    List (Effect P) → BarrierRound E → Prop
  | take {round : Nat} {source rest : S} {committed : Committed P}
      {outcome : IngestOutcome} {experiment : E} {onTime : Bool} :
      driver.deferred = none →
      driver.pending.keys.head? = some round →
      Committed.mint setting.access ⟨defaultRecordsChannel⟩ round
        (driver.pending.getD round []) source = (.ok committed, rest) →
      Ingest setting driver
        (.ingest ⟨driver.lastIngested, driver.deferred, round, committed, outcome⟩ ::
          (driver.accept experiment round onTime outcome).2.map .sent)
        (driver.accept experiment round onTime outcome).1

theorem advanceLoop_chain (trigger : Option Nat) (rounds : Nat) (driver : BarrierRound E)
    (source : S) :
    Chain (Ingest setting) driver (advanceLoop setting trigger rounds driver source).2
      (advanceLoop setting trigger rounds driver source).1 := by
  induction rounds generalizing driver source with
  | zero => exact .nil
  | succ rounds ih =>
    rw [advanceLoop]
    split
    · exact .nil
    rename_i idle
    split
    · exact .nil
    rename_i round head
    split
    · exact .nil
    · rename_i committed rest minted
      have quiet : driver.deferred = none := by simpa using idle
      exact .cons (.take quiet head minted) (ih _ rest)

/-- Two drivers with the same queue, watermark and fold in flight. -/
structure SameBarrier (driver after : BarrierRound E) : Prop where
  pending : after.pending = driver.pending
  lastIngested : after.lastIngested = driver.lastIngested
  deferred : after.deferred = driver.deferred

theorem SameBarrier.trans (left : SameBarrier first second) (right : SameBarrier second third) :
    SameBarrier first third where
  pending := right.pending.trans left.pending
  lastIngested := right.lastIngested.trans left.lastIngested
  deferred := right.deferred.trans left.deferred

theorem sameBarrier_settle (driver : BarrierRound E) : SameBarrier driver driver.settle := by
  unfold settle
  split <;> exact ⟨rfl, rfl, rfl⟩

/-- Advancing is a chain of ingests, up to the straggle state. -/
theorem advance_chain (setting : Setting E P S) (trigger : Option Nat) (driver : BarrierRound E)
    (source : S) :
    ∃ middle, Chain (Ingest setting) driver (advance setting trigger driver source).2 middle ∧
      SameBarrier middle (advance setting trigger driver source).1 :=
  ⟨_, advanceLoop_chain trigger _ driver source, sameBarrier_settle _⟩

/-- What a call does before it enters the ingest loop. -/
inductive Entry (driver : BarrierRound E) :
    Call S → List (Effect P) → BarrierRound E → Prop
  | opened (opened : RoundOpen) (source : S) : Entry driver (.roundOpen opened source) [] driver
  | dropped {record : RoundRecord} (entries : List RecordEntry) (source : S)
      {last : Nat} :
      driver.lastIngested = some last →
      record.round ≤ last →
      Entry driver (.roundRecord record entries source) [] driver
  | queued {record : RoundRecord} (entries : List RecordEntry) (source : S) :
      (∀ last ∈ driver.lastIngested, last < record.round) →
      Entry driver (.roundRecord record entries source) [] (driver.queue record.round entries)
  | finished {deferred : DeferredIngest} (digest : StateDigest) (source : S) :
      driver.deferred = some deferred →
      Entry driver (.finishIngest deferred.round digest source)
        [.sent (voice deferred.onTime deferred.round digest)]
        { driver with deferred := none, lastIngested := some deferred.round }
  | ignored {round : Nat} (digest : StateDigest) (source : S) :
      (∀ deferred ∈ driver.deferred, deferred.round ≠ round) →
      Entry driver (.finishIngest round digest source) [] driver

/-- Actions that do not announce an ingest. -/
def Quiet (effects : List (Effect P)) : Prop :=
  ∀ effect ∈ effects, ∃ action, effect = .sent action ∧ action.announced = none

theorem quiet_nil : Quiet ([] : List (Effect P)) :=
  List.forall_mem_nil _

theorem quiet_singleton (silent : action.announced = none) :
    Quiet [Effect.sent (P := P) action] := by
  intro effect member
  exact ⟨action, List.mem_singleton.mp member, silent⟩

/-- What a call does: it enters, makes a chain of ingests, and leaves with quiet
actions. -/
structure Does (setting : Setting E P S) (driver : BarrierRound E) (call : Call S)
    (effects : List (Effect P)) (after : BarrierRound E) where
  /-- The effects of entering. -/
  first : List (Effect P)
  /-- The driver at the ingest loop. -/
  entered : BarrierRound E
  /-- The effects of the loop. -/
  ingests : List (Effect P)
  /-- The driver after the loop. -/
  middle : BarrierRound E
  /-- The actions that follow. -/
  tail : List (Effect P)
  entry : Entry driver call first entered
  chain : Chain (Ingest setting) entered ingests middle
  leaves : SameBarrier middle after
  quiet : Quiet tail
  effects_eq : effects = first ++ (ingests ++ tail)

variable {call : Call S}

section Calls

variable {driver after : BarrierRound E}

theorem onRoundOpen_does
    (stepped : onRoundOpen setting driver opened source = some (after, effects)) :
    Nonempty (Does setting driver (.roundOpen opened source) effects after) := by
  obtain ⟨middle, chain, settled⟩ := advance_chain setting none driver source
  simp only [onRoundOpen] at stepped
  split at stepped
  · obtain ⟨stalled, _, built⟩ := Option.bind_eq_some_iff.mp stepped
    cases built
    refine ⟨⟨[], driver, _, middle, _, .opened opened source, chain,
      settled.trans ⟨rfl, rfl, rfl⟩, ?_, rfl⟩⟩
    intro effect member
    rcases List.mem_cons.mp member with rfl | leaving
    · exact ⟨_, rfl, rfl⟩
    · split at leaving
      · exact ⟨_, List.mem_singleton.mp leaving, rfl⟩
      · simp at leaving
  · obtain ⟨trained, committed, built⟩ := Option.bind_eq_some_iff.mp stepped
    cases built
    obtain ⟨steps, _, built⟩ := Option.bind_eq_some_iff.mp committed
    cases built
    exact ⟨⟨[], driver, _, middle, _, .opened opened source, chain,
      settled.trans ⟨rfl, rfl, rfl⟩, quiet_singleton rfl, rfl⟩⟩

theorem gapRefusal_announced (refused : driver.gapRefusal = some refusal) :
    refusal.announced = none := by
  unfold gapRefusal at refused
  split at refused
  · split at refused
    · cases refused
      rfl
    · simp at refused
  · simp at refused

theorem onRoundRecord_does
    (stepped : onRoundRecord setting driver record entries source = (after, effects)) :
    Nonempty (Does setting driver (.roundRecord record entries source) effects after) := by
  simp only [onRoundRecord] at stepped
  split at stepped
  · rename_i below
    cases stepped
    obtain ⟨last, held, under⟩ := (Option.any_eq_true _ _).mp below
    exact ⟨⟨[], driver, [], driver, [], .dropped entries source held (by simpa using under),
      .nil, ⟨rfl, rfl, rfl⟩, quiet_nil, rfl⟩⟩
  · rename_i above
    have fresh : ∀ last ∈ driver.lastIngested, last < record.round := by
      intro last held
      rw [Option.mem_def] at held
      simpa [held] using above
    split at stepped
    · rename_i refusal refused
      cases stepped
      exact ⟨⟨[], _, [], _, _, .queued entries source fresh, .nil, ⟨rfl, rfl, rfl⟩,
        quiet_singleton (gapRefusal_announced refused), rfl⟩⟩
    · obtain ⟨middle, chain, settled⟩ := advance_chain setting (some record.round)
        (driver.queue record.round entries) source
      split at stepped
      · cases stepped
        exact ⟨⟨[], _, _, middle, _, .queued entries source fresh, chain,
          settled.trans ⟨rfl, rfl, rfl⟩, quiet_singleton rfl, rfl⟩⟩
      · generalize advanced : advance setting (some record.round)
          (driver.queue record.round entries) source = result at stepped chain settled
        cases stepped
        exact ⟨⟨[], _, _, middle, [], .queued entries source fresh, chain, settled,
          quiet_nil, by simp⟩⟩

theorem finishIngest_does
    (stepped : finishIngest setting driver round digest source = (after, effects)) :
    Nonempty (Does setting driver (.finishIngest round digest source) effects after) := by
  have ignoring (other : ∀ deferred ∈ driver.deferred, deferred.round ≠ round) :
      Nonempty (Does (P := P) setting driver (.finishIngest round digest source) [] driver) :=
    ⟨⟨[], driver, [], driver, [], .ignored digest source other, .nil,
      ⟨rfl, rfl, rfl⟩, quiet_nil, rfl⟩⟩
  unfold finishIngest at stepped
  split at stepped
  · rename_i idle
    cases stepped
    exact ignoring (by simp [idle])
  · rename_i deferred flying
    split at stepped
    · rename_i different
      cases stepped
      apply ignoring
      intro other held
      rw [flying, Option.mem_some_iff] at held
      exact held ▸ different
    · rename_i same
      obtain rfl : deferred.round = round := by simpa using same
      obtain ⟨middle, chain, settled⟩ := advance_chain setting none
        { driver with deferred := none, lastIngested := some deferred.round } source
      cases stepped
      exact ⟨⟨_, _, _, middle, [], .finished digest source flying, chain, settled,
        quiet_nil, by simp⟩⟩

/-- Every call that returns enters, ingests and leaves. -/
theorem step_does (stepped : step setting driver call = some (after, effects)) :
    Nonempty (Does setting driver call effects after) := by
  cases call with
  | roundOpen opened source => exact onRoundOpen_does stepped
  | roundRecord record entries source => exact onRoundRecord_does (Option.some.inj stepped)
  | finishIngest round digest source => exact finishIngest_does (Option.some.inj stepped)

end Calls

/-- The ingest was given what the record lists, in order and checked. -/
def Given (setting : Setting E P S) (records : Nat → Option (List RecordEntry))
    (begun : Begun P) : Prop :=
  ∃ entries, records begun.round = some entries ∧
    Committed.Follows setting.access entries begun.committed.items

/-- The driver has made the ingests of `log` and holds entries of `records`. -/
structure Tracked (mark : Option Nat) (log : List Milestone)
    (records : Nat → Option (List RecordEntry)) (driver : BarrierRound E) : Prop where
  /-- The ingests so far form a ledger. -/
  serial : Serial mark log driver.lastIngested (driver.deferred.map DeferredIngest.round)
  queued : ∀ round ∈ driver.pending, ∀ last ∈ driver.lastIngested, last < round
  /-- Queued entries are those of the last record for their round. -/
  recorded : ∀ round entries, driver.pending[round]? = some entries → records round = some entries

section Tracking

variable {records : Nat → Option (List RecordEntry)}
variable {effects : List (Effect P)}

theorem Tracked.same (tracked : Tracked mark log records driver) (same : SameBarrier driver after) :
    Tracked mark log records after where
  serial := by
    rw [same.lastIngested, same.deferred]
    exact tracked.serial
  queued := by
    rw [same.pending, same.lastIngested]
    exact tracked.queued
  recorded := by
    rw [same.pending]
    exact tracked.recorded

/-- An ingest extends the ledger and is given what its record lists. -/
theorem Tracked.ingest (tracked : Tracked mark log records driver)
    (ingested : Ingest setting driver effects after) :
    Tracked mark (log ++ ingestMilestones effects) records after ∧
      ∀ begun, .ingest begun ∈ effects → Given setting records begun := by
  obtain @⟨round, source, rest, committed, outcome, experiment, onTime, idle, head, minted⟩ :=
    ingested
  obtain ⟨member, least⟩ := first_queued head
  have begins : Serial mark (log ++ [.began round]) (some round) (some round) := by
    have serial := tracked.serial
    rw [idle] at serial
    exact .begin serial (tracked.queued round member)
  have kept : ∀ other, other ∈ driver.pending.erase round → round < other := by
    intro other inside
    obtain ⟨different, inside⟩ := Std.TreeMap.mem_erase.mp inside
    exact lt_of_le_of_ne (least other inside) (different ∘ Std.LawfulEqCmp.compare_eq_iff_eq.mpr)
  have entries_eq : records round = some (driver.pending.getD round []) := by
    obtain ⟨entries, found⟩ :=
      Option.isSome_iff_exists.mp (Std.TreeMap.mem_iff_isSome_getElem?.mp member)
    rw [Std.TreeMap.getD_eq_getD_getElem?, found]
    exact tracked.recorded round entries found
  refine ⟨⟨?_, ?_, ?_⟩, ?_⟩
  · cases outcome with
    | ready digest =>
      have completes := begins.complete digest
      rw [List.append_assoc] at completes
      rw [accept_lastIngested]
      simpa [ingestMilestones, Effect.milestones, accept, idle] using completes
    | deferred =>
      rw [accept_lastIngested]
      simpa [ingestMilestones, Effect.milestones, accept] using begins
  · intro other inside last held
    rw [accept_pending] at inside
    rw [accept_lastIngested, Option.mem_some_iff] at held
    exact held ▸ kept other inside
  · intro other entries found
    rw [accept_pending, Std.TreeMap.getElem?_erase] at found
    split at found
    · simp at found
    · exact tracked.recorded other entries found
  · intro begun inside
    rcases List.mem_cons.mp inside with same | sent
    · cases same
      refine ⟨_, entries_eq, ?_⟩
      rw [Committed.mint] at minted
      split at minted
      · cases minted
      · cases minted
        exact Committed.mintItems_follows ‹_›
    · simp at sent

theorem Tracked.ingests (tracked : Tracked mark log records driver)
    (chain : Chain (Ingest setting) driver effects after) :
    Tracked mark (log ++ ingestMilestones effects) records after ∧
      ∀ begun, .ingest begun ∈ effects → Given setting records begun := by
  induction chain generalizing log with
  | nil =>
    refine ⟨?_, fun begun member => absurd member List.not_mem_nil⟩
    rwa [show ingestMilestones ([] : List (Effect P)) = [] from rfl, append_nil]
  | cons ingested _ ih =>
    obtain ⟨extended, first⟩ := tracked.ingest ingested
    obtain ⟨reached, later⟩ := ih extended
    refine ⟨by rwa [ingestMilestones_append, ← List.append_assoc], ?_⟩
    intro begun member
    exact (List.mem_append.mp member).elim (first begun) (later begun)

def recordsAfter (records : Nat → Option (List RecordEntry)) (call : Call S)
    (round : Nat) : Option (List RecordEntry) :=
  (call.entriesFor round).or (records round)

theorem finishMilestone_of_ne {driver : BarrierRound E} {source : S}
    (other : ∀ deferred ∈ driver.deferred, deferred.round ≠ round) :
    finishMilestone driver (.finishIngest round digest source) = [] :=
  if_neg (by simpa [Option.any_eq_true] using other)

/-- Entering completes the fold that finishes, and queues a new record. -/
theorem Tracked.entry (tracked : Tracked mark log records driver)
    (entry : Entry driver call effects after) :
    Tracked mark (log ++ finishMilestone driver call) (recordsAfter records call) after := by
  cases entry with
  | opened opened source =>
    simp only [finishMilestone, append_nil]
    exact { tracked with }
  | @dropped record entries source last held below =>
    simp only [finishMilestone, append_nil]
    refine ⟨tracked.serial, tracked.queued, ?_⟩
    intro round listed found
    have member : round ∈ driver.pending := by
      rw [Std.TreeMap.mem_iff_isSome_getElem?, found]
      rfl
    have different : record.round ≠ round := by
      have := tracked.queued round member last held
      omega
    rw [recordsAfter, Call.entriesFor, if_neg different]
    exact tracked.recorded round listed found
  | @queued record entries source fresh =>
    simp only [finishMilestone, append_nil]
    refine ⟨tracked.serial, ?_, ?_⟩
    · intro round member
      rcases Std.TreeMap.mem_insert.mp member with same | older
      · obtain rfl := Std.LawfulEqCmp.compare_eq_iff_eq.mp same
        exact fresh
      · exact tracked.queued round older
    · intro round listed found
      rw [queue, Std.TreeMap.getElem?_insert] at found
      rw [recordsAfter, Call.entriesFor]
      by_cases same : record.round = round
      · rw [if_pos (Std.LawfulEqCmp.compare_eq_iff_eq.mpr same)] at found
        rw [if_pos same]
        exact found
      · rw [if_neg (same ∘ Std.LawfulEqCmp.compare_eq_iff_eq.mp)] at found
        rw [if_neg same]
        exact tracked.recorded round listed found
  | @finished deferred digest source flying =>
    have serial := tracked.serial
    have watermark : driver.lastIngested = some deferred.round := by
      rw [flying] at serial
      generalize driver.lastIngested = last at serial ⊢
      cases serial
      rfl
    have matching : finishMilestone driver (.finishIngest deferred.round digest source) =
        [.completed deferred.round digest] := by
      simp [finishMilestone, flying]
    rw [matching]
    rw [flying] at serial
    refine ⟨?_, ?_, tracked.recorded⟩
    · rw [watermark] at serial
      exact serial.complete digest
    · rw [← watermark]
      exact tracked.queued
  | @ignored round digest source other =>
    rw [finishMilestone_of_ne other, append_nil]
    exact { tracked with }

/-- Entering announces what it completes and begins nothing. -/
theorem Entry.announces (entry : Entry driver call effects after) :
    announcements effects = completions (finishMilestone driver call) ∧
      ingestMilestones effects = [] ∧ ∀ begun, .ingest begun ∉ effects := by
  cases entry with
  | opened | dropped | queued => exact ⟨rfl, rfl, fun _ => List.not_mem_nil⟩
  | finished digest source flying =>
    simp [announcements, finishMilestone, flying, ingestMilestones, Effect.milestones]
  | ignored digest source other =>
    rw [finishMilestone_of_ne other]
    exact ⟨rfl, rfl, fun _ => List.not_mem_nil⟩

/-- Quiet actions announce nothing and begin nothing. -/
theorem Quiet.announces (quiet : Quiet effects) :
    announcements effects = [] ∧ ingestMilestones effects = [] ∧
      ∀ begun, .ingest begun ∉ effects := by
  refine ⟨?_, ?_, ?_⟩
  · apply List.filterMap_eq_nil_iff.mpr
    intro effect member
    obtain ⟨action, rfl, silent⟩ := quiet effect member
    exact silent
  · apply List.flatMap_eq_nil_iff.mpr
    intro effect member
    obtain ⟨action, rfl, _⟩ := quiet effect member
    rfl
  · intro begun member
    obtain ⟨action, impossible, _⟩ := quiet _ member
    simp at impossible

theorem announcements_chain (chain : Chain (Ingest setting) driver effects after) :
    announcements effects = completions (ingestMilestones effects) := by
  induction chain with
  | nil => rfl
  | cons ingested _ ih =>
    rw [announcements_append, ingestMilestones_append, completions_append, ih]
    obtain @⟨round, source, rest, committed, outcome, experiment, onTime, _, _, _⟩ := ingested
    cases outcome <;> simp [announcements, ingestMilestones, Effect.milestones, accept, completions]

/-- A call keeps the driver tracked, and its ingests are given what the records
list, its own included. -/
theorem Tracked.step (tracked : Tracked mark log records driver)
    (does : Does setting driver call effects after) :
    Tracked mark (log ++ (finishMilestone driver call ++ ingestMilestones effects))
        (recordsAfter records call) after ∧
      ∀ begun, .ingest begun ∈ effects → Given setting (recordsAfter records call) begun := by
  obtain ⟨reached, given⟩ := (tracked.entry does.entry).ingests does.chain
  obtain ⟨_, entering, entersNone⟩ := does.entry.announces
  obtain ⟨_, leaving, leavesNone⟩ := does.quiet.announces
  rw [does.effects_eq]
  constructor
  · simpa [entering, leaving] using reached.same does.leaves
  · intro begun member
    rcases List.mem_append.mp member with early | member
    · exact absurd early (entersNone begun)
    · rcases List.mem_append.mp member with inside | late
      · exact given begun inside
      · exact absurd late (leavesNone begun)

/-- A call announces exactly the ingests it completes, in order. -/
theorem Does.announcements_eq (does : Does setting driver call effects after) :
    announcements effects =
      completions (finishMilestone driver call ++ ingestMilestones effects) := by
  obtain ⟨entered, entering, _⟩ := does.entry.announces
  obtain ⟨left, leaving, _⟩ := does.quiet.announces
  rw [does.effects_eq]
  simp [entered, entering, left, leaving, announcements_chain does.chain]

end Tracking

section Runs

variable {experiment : E} {cfg : RoundCfg}

theorem lastRecord_concat (calls : List (Call S)) (call : Call S) :
    lastRecord (calls ++ [call]) = recordsAfter (lastRecord calls) call := by
  funext round
  exact Lists.getLast?_filterMap_concat _ _ _

theorem tracked_of_run
    (run : Run (graph (step setting)) ((new experiment cfg).resumeFrom mark) trace driver) :
    Tracked mark (milestones trace) (lastRecord (trace.map Step.input)) driver := by
  refine run.history (fun trace driver => Tracked mark (milestones trace)
    (lastRecord (trace.map Step.input)) driver) ?_ ?_
  · refine ⟨.start, ?_, ?_⟩
    · intro round member
      exact absurd member Std.TreeMap.not_mem_emptyc
    · intro round entries found
      exact absurd found (by simp [resumeFrom, new])
  · intro trace before call after effects _ tracked stepped
    obtain ⟨does⟩ := step_does stepped
    have reached := (tracked.step does).1
    rw [List.map_append, List.map_singleton, lastRecord_concat]
    simpa [milestones] using reached

/-- Along a run the ingests announced are those completed, in order. -/
theorem announcements_emitted
    (run : Run (graph (step setting)) ((new experiment cfg).resumeFrom mark) trace driver) :
    announcements (emitted trace) = completions (milestones trace) := by
  refine run.history (fun trace _ =>
    announcements (emitted trace) = completions (milestones trace)) rfl ?_
  intro trace before call after effects _ equal stepped
  obtain ⟨does⟩ := step_does stepped
  have own := does.announcements_eq
  simp only [milestones] at equal ⊢
  rw [emitted_append, announcements_append, equal, emitted_singleton, own]
  simp

/-- Ingest is exactly once and serial. In every run of a fresh driver, resumed
or not, over payload bytes:

* rounds begin in strictly ascending order, above the resumed watermark;
* when a round begins, every round begun before it has completed, and a round
  completes as the last one begun;
* every ingest is given the entries of the last record delivered for its round,
  in the record's order, with bytes that hash to the listed hashes;
* the digests announced are those of the completed ingests, in order. -/
theorem ingest_exactly_once_and_serial (setting : Setting E (List Byte) S)
    (bytes : setting.access.check = checkBytes setting.blake3) (experiment : E) (cfg : RoundCfg)
    (mark : Option Nat) {trace : List (Step (BarrierRound E) (Call S) (Effect (List Byte)))}
    {driver : BarrierRound E}
    (run : Run (graph (step setting)) ((new experiment cfg).resumeFrom mark) trace driver) :
    (begunRounds (milestones trace)).Pairwise (· < ·) ∧
    (∀ round ∈ begunRounds (milestones trace), ∀ last ∈ mark, last < round) ∧
    (∀ earlier round later, milestones trace = earlier ++ .began round :: later →
      begunRounds earlier = (completions earlier).map Prod.fst) ∧
    (∀ earlier round digest later,
      milestones trace = earlier ++ .completed round digest :: later →
      begunRounds earlier = (completions earlier).map Prod.fst ++ [round]) ∧
    (∀ earlier recorded later, trace = earlier ++ recorded :: later →
      ∀ begun, .ingest begun ∈ recorded.output →
        ∃ entries,
          lastRecord ((earlier ++ [recorded]).map Step.input) begun.round = some entries ∧
          begun.committed.items.map (fun item => (item.peer, item.hash)) =
            entries.map (fun entry => (entry.peer, entry.hash)) ∧
          ∀ item ∈ begun.committed.items, setting.blake3 item.bytes = item.hash) ∧
    announcements (emitted trace) = completions (milestones trace) := by
  have serial := (tracked_of_run run).serial
  have ascending := serial.ascending
  rw [List.pairwise_append] at ascending
  refine ⟨ascending.2.1, ?_, ?_, ?_, ?_, announcements_emitted run⟩
  · intro round begun last marked
    exact ascending.2.2 last (by simpa using marked) round begun
  · intro earlier round
    exact serial.orderly earlier (.began round)
  · intro earlier round digest
    exact serial.orderly earlier (.completed round digest)
  · intro earlier recorded later parted begun member
    obtain ⟨before, stepped⟩ := run.split parted
    obtain ⟨does⟩ := step_does stepped
    obtain ⟨entries, last, follows⟩ := ((tracked_of_run before).step does).2 begun member
    rw [List.map_append, List.map_singleton, lastRecord_concat]
    refine ⟨entries, last, follows.listed, ?_⟩
    intro item inside
    have passed := follows.checked item inside
    rw [bytes, checkBytes] at passed
    by_contra different
    exact passed (if_neg different)

open Coordinator

/-- A worker that is delivered records of one coordinator, in any order and with repetitions,
is given for each round what the only record of the round lists. So no two workers fold
different sets. -/
theorem recorded_set_folded (history : TickRun .trap prims config seed nowS past state)
    (run : Run (graph (step setting)) ((new experiment cfg).resumeFrom mark) trace driver)
    (delivered : ∀ record entries source,
      .roundRecord record entries source ∈ trace.map Step.input →
        record ∈ publishedRecords (emitted past) ∧ record.inline = some entries)
    (begins : .ingest begun ∈ emitted trace) :
    ∃ record ∈ publishedRecords (emitted past), record.round = begun.round ∧
      (∀ other ∈ publishedRecords (emitted past), other.round = begun.round → other = record) ∧
      Given setting (fun _ => record.inline) begun := by
  obtain ⟨recorded, inside, output⟩ := List.mem_flatMap.mp begins
  obtain ⟨earlier, later, rfl⟩ := List.append_of_mem inside
  obtain ⟨before, stepped⟩ := run.split rfl
  obtain ⟨does⟩ := step_does stepped
  obtain ⟨entries, last, follows⟩ := ((tracked_of_run before).step does).2 begun output
  rw [← lastRecord_concat] at last
  obtain ⟨call, heard, listed⟩ := List.mem_filterMap.mp (List.mem_of_getLast? last)
  cases call with
  | roundOpen | finishIngest => cases listed
  | roundRecord record entries source =>
    obtain ⟨round_eq, ⟨⟩⟩ := Option.ite_none_right_eq_some.mp listed
    obtain ⟨published, inline_eq⟩ := delivered record entries source (by grind)
    refine ⟨record, published, round_eq, ?_, entries, inline_eq, follows⟩
    intro other again same
    obtain ⟨frozen, records⟩ := history.records
    have twice := records.faithful other again
    rw [same, ← round_eq, records.faithful record published] at twice
    exact (Option.some.inj twice).symm

end Runs

/-- A setting in which every payload is there and empty, every hash is zero, and
even rounds are folded late. -/
def sampleSetting : Setting Unit (List Byte) Unit where
  mode := .trap
  blake3 := fun _ => fill 32 0
  access :=
    { check := checkBytes fun _ => fill 32 0, payload := fun _ _ _ => (some [], ()) }
  experiment :=
    { trainStep := fun _ experiment => experiment
      innerUpdate := fun _ experiment => experiment
      makeUpdate := fun _ experiment => ([], experiment)
      beginIngest := fun round _ experiment =>
        (if round % 2 = 0 then .deferred else .ready (fill 16 1), experiment) }

/-- A driver of one peer, resumed at round five. -/
def sampleDriver : BarrierRound Unit :=
  (new () ⟨fill 32 1, [fill 32 1], 1, 1, 3⟩).resumeFrom (some 5)

/-- The delivery of a record that lists one payload. -/
def sampleRecord (round : Nat) : Call Unit :=
  .roundRecord
    { round := round
      set := ⟨fill 32 0, 1⟩
      drops := []
      nextSeed := fill 32 0
      setLocator := .storeKey ""
      inline := none }
    [⟨fill 32 1, fill 32 0, 0⟩] ()

def sampleOpen (round : Nat) : Call Unit :=
  .roundOpen ⟨round, fill 32 0, fill 32 0, ⟨0, 1⟩, 0⟩ ()

/-- A run in which one round is folded late while the next is queued and its own
record is delivered again. -/
theorem two_rounds_ingested_exactly_once :
    ∃ trace driver,
      Run (graph (step sampleSetting)) sampleDriver trace driver ∧
      begunRounds (milestones trace) = [6, 7] ∧
      announcements (emitted trace) = completions (milestones trace) := by
  obtain ⟨trace, driver, run, checked⟩ := Run.of_checked_exec (step sampleSetting) sampleDriver
    [sampleRecord 6, sampleRecord 7, sampleRecord 6, .finishIngest 8 (fill 16 0) (),
      .finishIngest 6 (fill 16 0) ()]
    (fun trace _ => begunRounds (milestones trace) = [6, 7]) (by decide +kernel)
  have serial := ingest_exactly_once_and_serial sampleSetting rfl () _ (some 5) run
  exact ⟨trace, driver, run, checked, serial.2.2.2.2.2⟩

open Coordinator

/-- A round whose only member commits to the empty payload and attests it. -/
def committedSample : List Input :=
  [sampleJoin (samplePeer 1), .clock 1, .clock 20,
    sampleMessage (samplePeer 1) (.commitment ⟨0, fill 32 0, 0, []⟩),
    sampleMessage (samplePeer 1) (.attestation
      { round := 0, set := ⟨fill 32 0, 1⟩, inline := some [⟨samplePeer 1, fill 32 0⟩] })]

/-- A worker that hears the record of that round twice folds its payload. -/
theorem recorded_set_folded_committed :
    ∃ past state trace driver begun,
      TickRun .trap samplePrimitives sampleConfig (fill 32 7) 0 past state ∧
        Run (graph (step sampleSetting)) ((new () sampleDriver.cfg).resumeFrom none)
          trace driver ∧
        .ingest begun ∈ emitted trace ∧
        begun.committed.items = [⟨samplePeer 1, fill 32 0, []⟩] ∧
        ∃ record ∈ publishedRecords (emitted past),
          record.round = begun.round ∧
            record.inline = some [⟨samplePeer 1, fill 32 0, 0⟩] ∧
            Given sampleSetting (fun _ => record.inline) begun := by
  obtain ⟨past, state, history, done, executed, inline_eq, begins⟩ :=
    sampleRun_of_checked sampleConfig committedSample (fun past _ =>
      ∃ done ∈ exec (step sampleSetting) ((new () sampleDriver.cfg).resumeFrom none)
          ((publishedRecords (emitted past) ++ publishedRecords (emitted past)).map fun record =>
            .roundRecord record [⟨samplePeer 1, fill 32 0, 0⟩] ()),
        (∀ record ∈ publishedRecords (emitted past),
            record.inline = some [⟨samplePeer 1, fill 32 0, 0⟩]) ∧
          .ingest ⟨none, none, 0, ⟨[⟨samplePeer 1, fill 32 0, []⟩], 0⟩, .deferred⟩ ∈
            emitted done.1) (by decide +kernel)
  obtain ⟨run, inputs⟩ := exec_spec executed
  have delivered : ∀ record entries source,
      .roundRecord record entries source ∈ done.1.map Step.input →
        record ∈ publishedRecords (emitted past) ∧ record.inline = some entries := by
    intro record entries source heard
    rw [inputs] at heard
    obtain ⟨_, twice, ⟨⟩⟩ := List.mem_map.mp heard
    have published := (List.mem_append.mp twice).elim id id
    exact ⟨published, inline_eq record published⟩
  obtain ⟨record, published, round_eq, _, given⟩ :=
    recorded_set_folded history run delivered begins
  exact ⟨past, state, _, _, _, history, run, begins, rfl, record, published, round_eq,
    inline_eq record published, given⟩

end BarrierRound
end DaemonNode.Rounds
