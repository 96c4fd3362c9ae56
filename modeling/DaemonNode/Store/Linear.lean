import DaemonNode.Store.Edits
import DaemonNode.Store.Journal

/-!
# Fenced commits are linear

Any number of activations of a session run at the same time: each acquires a
lease, loads the session under its fence and commits at most once. Only the
holder of the newest lease is let through, so the commits that land follow the
order of the fences, each turn number is given out once, and every commit is made
on top of the snapshot it overwrites: no update is lost.
-/

namespace DaemonNode.SessionStore

open Machine

/-- The fence under which an operation commits or seals, with its session. -/
def presents : JournalOp → Option (SessionId × Nat)
  | .session op => (commitOf op).map fun commit => (commit.2.1.sessionId, commit.2.2)
  | .commitTraceSegment stream _ _ _ fence => fence.map (Prod.mk stream)
  | .appendTrace stream _ _ fence => fence.map (Prod.mk stream)

/-- The fences of the commits in a history, in their order. -/
def commitFences (done : List Deed) : List Nat :=
  (done.filterMap Deed.commit?).map fun commit => commit.2.2

theorem registerEvent_commit? (backend : Backend) (session : SessionId) (store : Store) (op : Op)
    (reply : Reply) :
    (registerEvent backend session store op reply).bind Register.Event.commit? =
      ((deedOf session op reply).bind Deed.commit?).map fun commit => commit.2.2 := by
  unfold registerEvent
  split
  · rename_i done shown
    rw [shown]
    cases done with
    | committed | opened | granted | loaded | claimed => rfl
  · rename_i silent
    rw [silent]
    split
    · rfl
    · split
      · rfl
      · rfl

/-- The register has seen the commits that the deeds show. -/
theorem commits_registerEvents (backend : Backend) (session : SessionId) (trace : List Recorded) :
    Register.commits (registerEvents backend session trace) =
      commitFences (deeds session trace) := by
  induction trace with
  | nil => rfl
  | cons recorded rest ih =>
    have first : Register.commits (registerEvents backend session [recorded]) =
        commitFences (deeds session [recorded]) := by
      simp only [Register.commits, registerEvents, commitFences, deeds, deedsOf,
        List.flatMap_singleton, List.filterMap_filterMap, List.map_filterMap,
        registerEvent_commit?]
    rw [← List.singleton_append, registerEvents_append, Register.commits_append, first,
      ih, deeds_append, commitFences, commitFences, commitFences,
      List.filterMap_append, List.map_append]

variable {store : Store} {fence : Nat} {record : SessionRecord}

theorem Store.checkFence_of_stale {α : Type} {id : SessionId}
    (present : (store.cell id).record = some record)
    (stale : fence < record.fence) (next : SessionRecord → Outcome α) :
    store.checkFence id fence next = (.error (.fenced fence record.fence), store) := by
  unfold checkFence withRecord
  rw [present]
  exact if_pos stale

theorem Journaled.refusal_of_stale {state : Journaled}
    (present : (state.store.cell stream).record = some record) (stale : fence < record.fence) :
    state.refusal stream (some fence) = some (.fenced fence record.fence) := by
  unfold refusal
  simp only [present]
  exact if_pos stale

/-- A commit under a fence that is not the newest one is refused. -/
theorem serve_fenced_out (backend : Backend)
    (presented : commitOf op = some (commit, checkpoint, fence))
    (present : (store.cell checkpoint.sessionId).record = some record)
    (stale : fence < record.fence) :
    serve backend store op = (.error (.fenced fence record.fence), store) := by
  cases op with
  | checkpointAndEnqueue checkpoint job fence =>
    cases presented
    rw [serve, Store.checkpointAndEnqueue, Store.checkFence_of_stale present stale]
    rfl
  | markCompleted checkpoint fence =>
    cases presented
    rw [serve, Store.markCompleted, Store.checkFence_of_stale present stale]
    rfl
  | commitTurn checkpoint turnSeal fence =>
    cases presented
    rw [serve, Store.commitTurn, Store.checkFence_of_stale present stale]
    rfl
  | parkApproval checkpoint approvals fence =>
    cases presented
    rw [serve, Store.parkApproval, Store.checkFence_of_stale present stale]
    rfl
  | _ => cases presented

/-- A commit, a seal or an append under a fence that is not the newest one is
refused and changes nothing. -/
theorem serveJournal_fenced_out (backend : Backend) {state : Journaled}
    (presented : presents op = some (session, fence))
    (present : (state.store.cell session).record = some record) (stale : fence < record.fence) :
    serveJournal backend state op = (.error (.fenced fence record.fence), state) := by
  cases op with
  | session op =>
    obtain ⟨⟨commit, checkpoint, holder⟩, committed, same⟩ := Option.map_eq_some_iff.mp presented
    cases same
    rw [serveJournal, serve_fenced_out backend committed present stale]
  | appendTrace stream segment entry holder =>
    obtain ⟨holder, rfl, same⟩ := Option.map_eq_some_iff.mp presented
    cases same
    rw [serveJournal, Journaled.appendTrace, Journaled.refusal_of_stale present stale]
    rfl
  | commitTraceSegment stream segment root signature holder =>
    obtain ⟨holder, rfl, same⟩ := Option.map_eq_some_iff.mp presented
    cases same
    rw [serveJournal, Journaled.commitTraceSegment, Journaled.refusal_of_stale present stale]
    rfl

/-- Every load of an activation whose commit lands has returned the snapshot of the
commit before. -/
theorem snapshot_of_load (served : Served backend earlier store)
    (step : serve backend store op = (reply, after))
    (fenced : Fenced backend session (earlier ++ [⟨store, op, after, [reply]⟩]))
    (unedited : .edited ∉ registerEvents backend session earlier)
    (committed : deedOf session op reply = some (.committed commit checkpoint fence))
    (loaded : .loaded activation ∈ deeds session earlier) (own : activation.fence = fence)
    (last : lastCommit (deeds session earlier) = some (previous, written, older))
    (writes : previous.writes backend = true) :
    activation.snapshot = written.snapshot := by
  have law := served.law fenced.of_append
  have event : registerEvent backend session store op reply = some (.committed fence) :=
    registerEvent_of_deed committed
  have current : (store.cell session).register.fence ≤ fence := by
    have moved := register_move step session
    rw [event] at moved
    exact moved.le_of_commit
  have allowed : Register.Allowed (registerEvents backend session earlier) (.committed fence) := by
    apply fenced earlier _ [] rfl
    rw [registerEvents_singleton, event]
    exact List.mem_singleton_self _
  have delivered : .loaded fence activation.snapshot ∈ registerEvents backend session earlier :=
    loaded_mem_registerEvents_iff.mpr ⟨activation, loaded, own, rfl⟩
  obtain ⟨granted, _, once⟩ := allowed
  obtain rfl := law.orderly.fence_eq granted current
  have found : (store.cell session).record.map SessionRecord.snapshot = some activation.snapshot :=
    law.current unedited once _ (Register.mem_loads.mpr delivered)
  rw [served.snapshot unedited last writes] at found
  exact (Option.some.inj found).symm

/-- The order and the content of the commits of a session. -/
structure Linear (backend : Backend) (session : SessionId) (trace : List Journalled)
    (state : Journaled) : Prop where
  /-- Commits land in the order of their fences. -/
  ascending : (commitFences (deeds session (sessionTrace trace))).Pairwise (· < ·)
  /-- The turn number counts the commits that have ended a turn. -/
  counted : ∀ record, (state.store.cell session).record = some record →
    record.turnSeq = turns (deeds session (sessionTrace trace))
  /-- A commit or seal that comes too late changes nothing. -/
  refused : ∀ recorded ∈ trace, ∀ fence, presents recorded.input = some (session, fence) →
    ∀ record, (recorded.before.store.cell session).record = some record → fence < record.fence →
      recorded.output = [.error (.fenced fence record.fence)] ∧ recorded.after = recorded.before
  /-- Without edits every commit was loaded from the one before it. -/
  loaded : .edited ∉ registerEvents backend session (sessionTrace trace) →
    ∀ earlier recorded later, trace = earlier ++ recorded :: later →
      ∀ commit checkpoint fence,
        deeds session (sessionTrace [recorded]) = [.committed commit checkpoint fence] →
      ∀ activation, .loaded activation ∈ deeds session (sessionTrace earlier) →
        activation.fence = fence →
      ∀ previous written older,
        lastCommit (deeds session (sessionTrace earlier)) = some (previous, written, older) →
        previous.writes backend = true →
      activation.snapshot = written.snapshot

/-- Fenced commits are linear, whatever the interleaving. -/
theorem commits_linear (backend : Backend) {trace : List Journalled} {state : Journaled}
    (run : Run (graph (journalMachine backend)) Journaled.empty trace state)
    (session : SessionId) (fenced : Fenced backend session (sessionTrace trace)) :
    Linear backend session trace state where
  ascending := by
    rw [← commits_registerEvents backend]
    exact ((served_of_journal_run run).law fenced).orderly.ascending
  counted := by
    intro record present
    rw [← (served_of_journal_run run).turn session, Cell.turn_of_present present]
  refused := by
    intro recorded member fence presented record present stale
    obtain ⟨reply, answered, served⟩ := serveJournal_of_step (run.before_reached member).2
    rw [serveJournal_fenced_out backend presented present stale] at served
    obtain ⟨rfl, same⟩ := Prod.mk.inj served
    exact ⟨answered, same.symm⟩
  loaded := by
    intro unedited earlier recorded later parted commit checkpoint fence committed activation
      delivered own previous written older last writes
    obtain ⟨before, stepped⟩ := run.split parted
    obtain ⟨reply, answered, served⟩ := serveJournal_of_step stepped
    obtain ⟨start, op, after, output⟩ := recorded
    subst answered
    cases op with
    | appendTrace | commitTraceSegment => cases committed
    | session op =>
      obtain ⟨step, _⟩ := serve_of_serveJournal served
      have regrouped : sessionTrace trace =
          (sessionTrace earlier ++ [⟨start.store, op, after.store, [reply]⟩]) ++
            sessionTrace later := by
        rw [parted, sessionTrace_append, List.append_assoc]
        rfl
      rw [regrouped] at fenced unedited
      have shown : deedOf session op reply = some (.committed commit checkpoint fence) := by
        have single := (deeds_singleton session start.store after.store op reply).symm.trans
          committed
        exact Option.toList_eq_singleton_iff.mp single
      refine snapshot_of_load (served_of_journal_run before) step fenced.of_append ?_ shown
        delivered own last writes
      intro edited
      apply unedited
      rw [registerEvents_append, registerEvents_append]
      exact List.mem_append_left _ (List.mem_append_left _ edited)

/-- A lease is overtaken: its commit and its seal come too late, while the next two
activations end a turn and the session. -/
def overtakenLease : List JournalOp :=
  [.session (.createSession "s" 0 []), .session (.acquireActivationLease "s"),
    .session (.loadForActivation "s" 1), .session (.acquireActivationLease "s"),
    .session (.commitTurn (snapshotOnly [9]) none 1), .session (.loadForActivation "s" 2),
    .commitTraceSegment "s" 0 (.fill 32 0) [] (some 1),
    .session (.commitTurn (snapshotOnly [1]) none 2), .session (.acquireActivationLease "s"),
    .session (.loadForActivation "s" 3), .session (.markCompleted (snapshotOnly [2]) 3)]

theorem overtakenLease_linear :
    ∃ trace state,
      Run (graph (journalMachine .memory)) Journaled.empty trace state ∧
      trace.map Step.input = overtakenLease ∧
      Fenced .memory "s" (sessionTrace trace) ∧
      commitFences (deeds "s" (sessionTrace trace)) = [2, 3] ∧ Linear .memory "s" trace state := by
  obtain ⟨⟨trace, state⟩, executed, fenced, fences⟩ :=
    show ∃ result ∈ exec (journalMachine .memory) Journaled.empty overtakenLease,
      Fenced .memory "s" (sessionTrace result.1) ∧
        commitFences (deeds "s" (sessionTrace result.1)) = [2, 3] by decide +kernel
  have run := Run.of_exec executed
  exact ⟨trace, state, run, exec_inputs executed, fenced, fences,
    commits_linear .memory run "s" fenced⟩

end DaemonNode.SessionStore
