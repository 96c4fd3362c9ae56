import DaemonNode.Store.Moves

/-!
# Every input is consumed exactly once

An activation claims splices under its fence and consumes them by a cursor when
it commits. A stale activation may still load, and only its commit is refused;
a crash leaves splices claimed, to be claimed again by a newer fence.

Seen from one session each operation is a step of the fenced inbox, so the
history of consumption is the inbox's. Pruning removes consumed splices only.
-/

namespace DaemonNode.SessionStore

open Machine

def Deed.event : Deed → Option Inbox.Event
  | .opened => none
  | .granted fence => some (.granted fence)
  | .loaded activation => some (.loaded activation.fence (activation.splices.map Inbox.Entry.seq))
  | .claimed fence splices => some (.loaded fence (splices.map Inbox.Entry.seq))
  | .committed _ checkpoint fence => some (.committed fence checkpoint.consumedSplices)

/-- The inbox of a session; one that does not exist has granted no fence. -/
def Cell.inbox (cell : Cell) : Inbox.State SpliceBody where
  fence := cell.record.elim 0 SessionRecord.fence
  minted := cell.spliceSeq
  entries := cell.splices

variable {session : SessionId} {trace : List Recorded}

namespace Cell

@[simp] theorem setStatus_inbox (cell : Cell) (status : SessionStatus) :
    (cell.setStatus status).inbox = cell.inbox := by
  unfold setStatus inbox
  cases cell.record with
  | none | some => rfl

@[simp] theorem readyIfIdle_inbox (cell : Cell) : cell.readyIfIdle.inbox = cell.inbox := by
  unfold readyIfIdle
  split
  · exact setStatus_inbox cell .ready
  · rfl

@[simp] theorem applyCompletion_inbox (backend : Backend) (completion : JobCompletion)
    (cell : Cell) :
    (cell.applyCompletion backend completion).2.inbox = cell.inbox := by
  unfold applyCompletion
  split
  · exact setStatus_inbox cell .ready
  · rfl

variable {cell : Cell}

theorem inbox_of_present {record : SessionRecord} (present : cell.record = some record) :
    cell.inbox = ⟨record.fence, cell.spliceSeq, cell.splices⟩ := by
  rw [inbox, present]
  rfl

@[simp] theorem parkedRecord_fence (backend : Backend) (checkpoint : Checkpoint)
    (approvals : List ParkedApproval) (record : SessionRecord) :
    (parkedRecord backend checkpoint approvals record).fence = record.fence := by
  unfold parkedRecord
  split
  · rfl
  · rfl
  · rfl

theorem inbox_commit {after : Cell} {record : SessionRecord} {checkpoint : Checkpoint}
    (present : cell.record = some record) (current : record.fence ≤ fence)
    (written : after.inbox = ⟨record.fence, cell.spliceSeq,
      Inbox.consumeUpTo checkpoint.consumedSplices record.turnSeq cell.splices⟩) :
    Inbox.Move cell.inbox (some (.committed fence checkpoint.consumedSplices)) after.inbox := by
  rw [written, inbox_of_present present]
  exact .commit _ fence checkpoint.consumedSplices record.turnSeq current

theorem Move.inbox {after : Cell} (moved : Move backend cell done after) :
    Inbox.Move cell.inbox (done.bind Deed.event) after.inbox := by
  cases moved with
  | same | filed => exact .stay _
  | opened record policy input absent unfenced status =>
    have closed : cell.inbox = ⟨record.fence, cell.spliceSeq, cell.splices⟩ := by
      rw [Cell.inbox, absent, unfenced]
      rfl
    rw [closed]
    cases input with
    | none => exact .stay _
    | some body => exact .append _ body
  | readied record present =>
    rw [setStatus_inbox]
    exact .stay _
  | appended record body present =>
    rw [readyIfIdle_inbox]
    exact .append _ body
  | claimed record fence present current => exact .load _ fence
  | pruned cutoff =>
    exact .prune _ (Store.keepsSplice cutoff) fun _ _ => Store.isConsumed_of_dropped
  | granted record present =>
    rw [inbox_of_present present]
    exact .grant _
  | loaded record fence present => exact .load _ fence
  | suspended record checkpoint job fence present current => exact inbox_commit present current rfl
  | completed record checkpoint fence present current => exact inbox_commit present current rfl
  | fulfilled record checkpoint fence completion present current =>
    exact inbox_commit present current (applyCompletion_inbox backend completion _)
  | turned record checkpoint fence present current => exact inbox_commit present current rfl
  | parked record checkpoint approvals rows fence present current =>
    refine inbox_commit present current ?_
    rw [Cell.inbox, ← parkedRecord_fence backend checkpoint approvals record]
    rfl
  | recorded | answered =>
    rw [applyCompletion_inbox]
    exact .stay _
  | swapped record snapshot present dormant =>
    rw [inbox_of_present present]
    exact .stay _

end Cell

/-- What the inbox of a session sees of a run. -/
def events (session : SessionId) (trace : List Recorded) : List Inbox.Event :=
  (deeds session trace).filterMap Deed.event

/-- The splices of a session that an operation flips to consumed. -/
def flips (session : SessionId) (recorded : Recorded) : List Nat :=
  Inbox.turned (recorded.before.cell session).splices (recorded.after.cell session).splices

/-- How activations of a session use the store: they load and commit under fences
they were granted, and commit with the largest number they loaded; one that
loaded nothing commits with no cursor or with one already committed. -/
def Disciplined (session : SessionId) (trace : List Recorded) : Prop :=
  ∀ earlier recorded later, trace = earlier ++ recorded :: later →
    ∀ event ∈ events session [recorded], Inbox.Allowed (events session earlier) event

instance (session : SessionId) (trace : List Recorded) : Decidable (Disciplined session trace) :=
  decidable_of_iff _ (Lists.forall_split_iff fun earlier recorded =>
    ∀ event ∈ events session [recorded], Inbox.Allowed (events session earlier) event).symm

theorem Disciplined.of_append (disciplined : Disciplined session (trace ++ rest)) :
    Disciplined session trace := by
  intro earlier recorded later parted
  exact disciplined earlier recorded (later ++ rest)
    (by rw [parted, List.append_assoc, List.cons_append])

@[simp] theorem events_append (session : SessionId) (earlier later : List Recorded) :
    events session (earlier ++ later) = events session earlier ++ events session later := by
  rw [events, deeds_append, List.filterMap_append]
  rfl

theorem deed_of_event_committed (shown : done.bind Deed.event = some (.committed fence cursor)) :
    ∃ commit checkpoint, done = some (.committed commit checkpoint fence) := by
  obtain ⟨deed, rfl, event⟩ := Option.bind_eq_some_iff.mp shown
  cases deed with
  | opened | granted | loaded | claimed => cases event
  | committed commit checkpoint fence =>
    cases event
    exact ⟨commit, checkpoint, rfl⟩

/-- A disciplined step keeps the history of a session exact, and what it flips was
loaded by the activation that commits. -/
theorem exact_step (stepped : graph (machine backend) store op output after)
    (exact : Inbox.Exact (events session trace) flipped (store.cell session).inbox)
    (allowed : ∀ event ∈ events session [⟨store, op, after, output⟩],
      Inbox.Allowed (events session trace) event) :
    Inbox.Exact (events session (trace ++ [⟨store, op, after, output⟩]))
        (flipped ++ flips session ⟨store, op, after, output⟩) (after.cell session).inbox ∧
      ∀ seq ∈ flips session ⟨store, op, after, output⟩, ∃ commit checkpoint fence,
        deedsOf session ⟨store, op, after, output⟩ = [.committed commit checkpoint fence] ∧
          seq ∈ Inbox.loads fence (events session trace) := by
  obtain ⟨reply, rfl, effect, shown⟩ := machine_step stepped
  have seen : events session [⟨store, op, after, [reply]⟩] =
      ((deedOf session op reply).bind Deed.event).toList := by
    rw [events, shown]
    cases deedOf session op reply with
    | none => rfl
    | some done => cases done <;> rfl
  rw [events_append, seen]
  rw [seen] at allowed
  have moved : Cell.Move backend _ (deedOf session op reply) _ := effect.move session
  obtain ⟨kept, loaded⟩ := exact.move moved.inbox
    fun event committed => allowed event (Option.mem_toList.mpr committed)
  refine ⟨kept, fun seq turned => ?_⟩
  obtain ⟨fence, cursor, committed, delivered⟩ := loaded seq turned
  obtain ⟨commit, checkpoint, done⟩ := deed_of_event_committed committed
  refine ⟨commit, checkpoint, fence, ?_, delivered⟩
  have single := shown session
  rw [deeds, List.flatMap_singleton, done] at single
  exact single

/-- The history of a session along a disciplined run is exact. -/
theorem exact_of_run (run : Run (graph (machine backend)) Store.empty trace store)
    (disciplined : Disciplined session trace) :
    Inbox.Exact (events session trace) (trace.flatMap (flips session))
      (store.cell session).inbox := by
  revert disciplined
  apply run.history fun trace store => Disciplined session trace →
    Inbox.Exact (events session trace) (trace.flatMap (flips session)) (store.cell session).inbox
  · intro _
    exact Inbox.Exact.empty 0
  · intro trace state op after output _ ih stepped disciplined
    rw [List.flatMap_append, List.flatMap_singleton]
    exact (exact_step stepped (ih disciplined.of_append) (disciplined trace _ [] rfl)).1

/-- The splices of a session are consumed in order and without a gap, each by a
commit whose activation had loaded it, and none is gone before. -/
structure ConsumedOnce (session : SessionId) (trace : List Recorded) : Prop where
  in_order : ∃ count, trace.flatMap (flips session) = List.range' 1 count
  loaded : ∀ earlier recorded later, trace = earlier ++ recorded :: later →
    ∀ seq ∈ flips session recorded, ∃ commit checkpoint fence,
      deedsOf session recorded = [.committed commit checkpoint fence] ∧
        seq ∈ Inbox.loads fence (events session earlier)
  kept : ∀ recorded ∈ trace, ∀ splice ∈ (recorded.before.cell session).splices,
    (∀ left ∈ (recorded.after.cell session).splices, left.seq ≠ splice.seq) →
      splice.claim.isConsumed = true

/-- Exactly-once input, in both backends and under every interleaving. -/
theorem splices_consumed_once (backend : Backend) {trace : List Recorded} {store : Store}
    (run : Run (graph (machine backend)) Store.empty trace store)
    (session : SessionId) (disciplined : Disciplined session trace) :
    ConsumedOnce session trace where
  in_order := ⟨_, (exact_of_run run disciplined).flips_eq⟩
  loaded := by
    intro earlier recorded later parted
    obtain ⟨before, stepped⟩ := run.split parted
    rw [parted] at disciplined
    exact (exact_step stepped (exact_of_run before disciplined.of_append)
      (disciplined earlier recorded later rfl)).2
  kept := by
    intro recorded member splice listed gone
    obtain ⟨reply, _, effect, _⟩ := machine_step (run.before_reached member).2
    exact (effect.move session).inbox.isConsumed_of_gone listed gone

/-- A checkpoint with a cursor and nothing else. -/
def sampleCheckpoint (cursor : Nat) : Checkpoint :=
  ⟨"s", 0, [], none, some cursor, []⟩

/-- An input of the sample session. -/
def sampleSplice (origin : String) : Op :=
  .appendSplice ⟨"s", .startTurn, [], origin, "wire"⟩ 0

/-- A producer retries, an activation crashes after its load, loads again when it
is stale and commits in vain, while its successor commits and is pruned. -/
def crashedTurn : List Op :=
  [.createSession "s" 0 [], sampleSplice "a", sampleSplice "a", sampleSplice "b",
    .acquireActivationLease "s", .loadForActivation "s" 1,
    .acquireActivationLease "s", .loadForActivation "s" 2, sampleSplice "c",
    .loadForActivation "s" 1, .commitTurn (sampleCheckpoint 3) none 1,
    .commitTurn (sampleCheckpoint 2) none 2, .pruneConsumedSplices 10,
    .acquireActivationLease "s", .loadForActivation "s" 3,
    .markCompleted (sampleCheckpoint 3) 3]

theorem crashedTurn_consumed_once :
    ∃ trace store, Run (graph (machine .memory)) Store.empty trace store ∧
      Disciplined "s" trace ∧ trace.flatMap (flips "s") = [1, 2, 3] ∧ ConsumedOnce "s" trace := by
  obtain ⟨trace, store, run, disciplined, flipped⟩ := Run.of_checked_exec (machine .memory)
    Store.empty crashedTurn (fun trace _ => Disciplined "s" trace ∧
      trace.flatMap (flips "s") = [1, 2, 3]) (by decide +kernel)
  exact ⟨trace, store, run, disciplined, flipped, splices_consumed_once .memory run "s" disciplined⟩

end DaemonNode.SessionStore
