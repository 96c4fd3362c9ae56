import DaemonNode.Lib.Loop
import DaemonNode.Store.Completions

/-!
# Recovery

The activation manager drives engines over the store. An activation is granted
a fence, loads the session, lets an incarnation of the engine run and commits
what it returns. `recover` drains the job outbox and the wake outbox and then
activates every session that the recovery scan names, and does so again until a
pass finds nothing to do.

The manager is modelled without lingering and with its activations one after
the other, as `recover` awaits them; the slot of a session is then always free.
An incarnation is a function of what it loads, fence included, so it may behave
differently each time.
-/

namespace DaemonNode.Activation

open SessionStore Machine
open Store (setCell_cell_self isResumable status withRecord)

/-- How an incarnation ends its run. -/
inductive Step
  | completed
  | turnCommitted
  | suspended (job : JobCommand)
  | parkApproval (approvals : List ParkedApproval)

/-- What an incarnation has to commit. -/
structure Turn where
  step : Step
  epoch : Nat
  snapshot : Blob
  consumedSplices : Option Nat
  completionPayload : Option Blob
  turnSeal : Option TurnSeal

/-- An engine: what it makes of a session that it loads. -/
abbrev Incarnation := SessionId → SessionStore.Activation → Except String Turn

inductive SubErr
  | store (error : StoreError)
  | engine (text : String)
  deriving DecidableEq, Repr

/-- A result of the manager and the store it leaves. -/
abbrev Managed (α : Type) := Except SubErr α × Store

/-- A commit as a result of the manager. -/
def managed {α : Type} (outcome : Outcome α) : Managed Unit :=
  match outcome with
  | (.ok _, store) => (.ok (), store)
  | (.error error, store) => (.error (.store error), store)

def checkpointOf (id : SessionId) (turn : Turn) : Checkpoint where
  sessionId := id
  epoch := turn.epoch
  snapshot := turn.snapshot
  completionPayload := none
  consumedSplices := turn.consumedSplices
  appliedCompletions := []

section

variable (backend : Backend) (incarnation : Incarnation) (id : SessionId)

/-- Commit what an incarnation returns. Only a turn names the completions that
were loaded. -/
def commitStep (fence : Nat) (activation : SessionStore.Activation) (turn : Turn) (store : Store) :
    Managed Unit :=
  match turn.step with
  | .suspended job => managed (store.checkpointAndEnqueue backend (checkpointOf id turn) job fence)
  | .parkApproval approvals =>
    managed (store.parkApproval backend (checkpointOf id turn) approvals fence)
  | .turnCommitted =>
    managed (store.commitTurn
      { checkpointOf id turn with appliedCompletions := activation.unapplied.map JobCompletion.key }
      turn.turnSeal fence)
  | .completed =>
    managed (store.markCompleted backend
      { checkpointOf id turn with completionPayload := turn.completionPayload } fence)

/-- Load, run and commit one turn. -/
def runTurn (fence : Nat) (store : Store) : Managed Unit :=
  match store.loadForActivation id fence with
  | (.error error, store) => (.error (.store error), store)
  | (.ok activation, store) =>
    match incarnation id activation with
    | .error text => (.error (.engine text), store)
    | .ok turn => commitStep backend id fence activation turn store

/-- Take the lease and run one turn. An activation that a newer fence has
overtaken counts as done. -/
def leaseAndRun (store : Store) : Managed Unit :=
  match store.acquireActivationLease id with
  | (.error error, store) => (.error (.store error), store)
  | (.ok fence, store) =>
    match runTurn backend incarnation id fence store with
    | (.error (.store (.fenced _ _)), store) => (.ok (), store)
    | outcome => outcome

/-- Activate a session unless it is completed or idle. -/
def wake (store : Store) : Managed Unit :=
  match store.status id with
  | none => (.ok (), store)
  | some .completed => (.ok (), store)
  | some .idle => (.ok (), store)
  | some _ => leaseAndRun backend incarnation id store

/-- The completion a worker makes of a job. -/
def completionOf (job : JobCommand) : JobCompletion where
  sessionId := job.sessionId
  epoch := job.epoch
  jobId := job.jobId
  payload := job.payload

/-- One round of a worker, with the number of jobs done so far. -/
def workOnce (state : Nat × Store) : Option (Managed Nat ⊕ (Nat × Store)) :=
  match state.2.dequeueJob with
  | (.ok (some job), store) =>
    match store.recordCompletionAndWake backend (completionOf job) with
    | (.error error, store) => some (.inl (.error (.store error), store))
    | (.ok (), store) => some (.inr (state.1 + 1, store))
  | (_, store) => some (.inl (.ok state.1, store))

/-- Complete every job of the outbox. -/
def runWorkers (fuel : Nat) (store : Store) : Option (Managed Nat) :=
  Loop.run (workOnce backend) fuel (0, store)

/-- One round of the dispatcher. -/
def dispatchOnce (state : Nat × Store) : Option (Managed Nat ⊕ (Nat × Store)) :=
  match state.2.dequeueWake with
  | (.ok (some id), store) =>
    match wake backend incarnation id store with
    | (.error error, store) => some (.inl (.error error, store))
    | (.ok (), store) => some (.inr (state.1 + 1, store))
  | (_, store) => some (.inl (.ok state.1, store))

/-- Wake every session of the outbox. -/
def dispatchWakes (fuel : Nat) (store : Store) : Option (Managed Nat) :=
  Loop.run (dispatchOnce backend incarnation) fuel (0, store)

/-- Wake sessions one after the other and count them. -/
def wakeAll (backend : Backend) (incarnation : Incarnation) :
    List SessionId → Nat → Store → Managed Nat
  | [], scanned, store => (.ok scanned, store)
  | id :: ids, scanned, store =>
    match wake backend incarnation id store with
    | (.error error, store) => (.error error, store)
    | (.ok (), store) => wakeAll backend incarnation ids (scanned + 1) store

/-- One pass of the recovery scan. -/
def scanOnce (partition : Nat) (store : Store) : Managed Nat :=
  wakeAll backend incarnation (store.scanResumable partition) 0 store

/-- One pass of `recover`; it returns when nothing was done. -/
def recoverOnce (partition fuel : Nat) (store : Store) : Option (Managed Unit ⊕ Store) :=
  match runWorkers backend fuel store with
  | none => none
  | some (.error error, store) => some (.inl (.error error, store))
  | some (.ok jobs, store) =>
    match dispatchWakes backend incarnation fuel store with
    | none => none
    | some (.error error, store) => some (.inl (.error error, store))
    | some (.ok wakes, store) =>
      match scanOnce backend incarnation partition store with
      | (.error error, store) => some (.inl (.error error, store))
      | (.ok scanned, store) =>
        if jobs = 0 ∧ wakes = 0 ∧ scanned = 0 then some (.inl (.ok (), store))
        else some (.inr store)

/-- Recover until a pass finds nothing to do. -/
def recover (partition fuel : Nat) (store : Store) : Option (Managed Unit) :=
  Loop.run (recoverOnce backend incarnation partition fuel) fuel store

end

theorem runWorkers_of_empty (jobs : store.jobOutbox = []) :
    runWorkers backend (fuel + 1) store = some (.ok 0, store) := by
  have drained : { store with jobOutbox := store.jobOutbox.tail } = store := by
    rw [jobs, List.tail_nil, ← jobs]
  refine Loop.run_of_returns ?_ fuel
  rw [workOnce, Store.dequeueJob, drained, jobs]
  rfl

theorem dispatchWakes_of_empty (wakes : store.wakeOutbox = []) :
    dispatchWakes backend incarnation (fuel + 1) store = some (.ok 0, store) := by
  have drained : { store with wakeOutbox := store.wakeOutbox.tail } = store := by
    rw [wakes, List.tail_nil, ← wakes]
  refine Loop.run_of_returns ?_ fuel
  rw [dispatchOnce, Store.dequeueWake, drained, wakes]
  rfl

/-- A pass with empty outboxes is a pass of the scan. -/
theorem recoverOnce_of_empty (jobs : store.jobOutbox = []) (wakes : store.wakeOutbox = []) :
    recoverOnce backend incarnation partition (fuel + 1) store =
      match scanOnce backend incarnation partition store with
      | (.error error, store) => some (.inl (.error error, store))
      | (.ok scanned, store) =>
        if scanned = 0 then some (.inl (.ok (), store)) else some (.inr store) := by
  rw [recoverOnce, runWorkers_of_empty jobs]
  simp only
  rw [dispatchWakes_of_empty wakes]
  simp only [true_and]

/-- The incarnations of a session all park on approvals. -/
def ParksAgain (incarnation : Incarnation) (session : SessionId) : Prop :=
  ∀ activation, ∃ turn first rest,
    incarnation session activation = .ok turn ∧ turn.step = .parkApproval (first :: rest)

/-- Nothing is queued, and the scan names one session, which is suspended. -/
structure Stuck (partition : Nat) (session : SessionId) (store : Store) : Prop where
  jobs : store.jobOutbox = []
  wakes : store.wakeOutbox = []
  unarmed : store.fault = none
  scanned : store.scanResumable partition = [session]
  suspended : ∃ record job, (store.cell session).record = some record ∧
    record.status = .suspended job

section Repark

variable {store : Store}

/-- A park with approvals under the newest fence. -/
theorem parkApproval_setCell (session : SessionId) (cell : Cell)
    (present : cell.record = some record) (unarmed : store.fault = none) (turn : Turn)
    (first : ParkedApproval) (rest : List ParkedApproval) :
    ∃ parked written, (store.setCell session cell).parkApproval .memory
        (checkpointOf session turn) (first :: rest) record.fence =
          (.ok (), store.setCell session parked) ∧
      parked.unapplied = cell.unapplied ∧ parked.record = some written ∧
      written.partition = record.partition ∧ written.status = .suspended first.jobId := by
  let committed := cell.park .memory (checkpointOf session turn) (first :: rest) record
  obtain ⟨rows, filed⟩ := Store.foldl_fileApproval (first :: rest) committed
  refine ⟨{ committed with pendingApprovals := rows },
    Cell.parkedRecord .memory (checkpointOf session turn) (first :: rest) record,
    ?_, rfl, rfl, rfl, rfl⟩
  have own : (checkpointOf session turn).sessionId = session := rfl
  have disarmed : (store.setCell session cell).fault ≠ some .beforeSnapshot := by
    rw [show (store.setCell session cell).fault = none from unarmed]
    nofun
  rw [Store.parkApproval, Store.checkFence, withRecord, own, setCell_cell_self, present]
  simp only [lt_irrefl, if_false]
  rw [Store.takeFault, if_neg disarmed]
  simp only [Store.setCell_setCell, Store.fileApprovals, setCell_cell_self]
  rw [filed]

/-- A wake of a suspended session that parks again writes its cell and leaves the
same completions waiting. -/
theorem wake_reparks (parks : ParksAgain incarnation session) (unarmed : store.fault = none)
    (present : (store.cell session).record = some record)
    (suspended : record.status = .suspended job) :
    ∃ cell written next,
      wake .memory incarnation session store = (.ok (), store.setCell session cell) ∧
        cell.unapplied = (store.cell session).unapplied ∧ cell.record = some written ∧
        written.partition = record.partition ∧ written.status = .suspended next := by
  let leased : Cell :=
    { store.cell session with
      record := some { record with fence := record.fence + 1, status := .active } }
  have granted : store.acquireActivationLease session =
      (.ok (record.fence + 1), store.setCell session leased) := by
    rw [Store.acquireActivationLease, withRecord, present]
  obtain ⟨activation, loaded⟩ : ∃ activation,
      (store.setCell session leased).loadForActivation session (record.fence + 1) =
        (.ok activation, store.setCell session (leased.claimSplices (record.fence + 1))) := by
    rw [Store.loadForActivation, withRecord, setCell_cell_self]
    simp only [leased, Store.setCell_setCell]
    exact ⟨_, rfl⟩
  obtain ⟨turn, first, rest, ran, step⟩ := parks activation
  obtain ⟨cell, written, parked, unapplied, kept, placed, again⟩ :=
    parkApproval_setCell session (leased.claimSplices (record.fence + 1)) rfl unarmed turn first
      rest
  refine ⟨cell, written, first.jobId, ?_, unapplied, kept, placed, again⟩
  rw [wake, Store.status, present, Option.map_some, suspended]
  simp only
  rw [leaseAndRun, granted]
  simp only
  rw [runTurn, loaded]
  simp only
  rw [ran]
  simp only
  rw [commitStep, step]
  simp only
  rw [parked]
  rfl

/-- After such a wake the scan names the session again. -/
theorem Stuck.setCell (stuck : Stuck partition session store)
    (present : (store.cell session).record = some record)
    (suspended : record.status = .suspended job)
    (unapplied : cell.unapplied = (store.cell session).unapplied)
    (kept : cell.record = some written) (placed : written.partition = record.partition)
    (again : written.status = .suspended next) :
    Stuck partition session (store.setCell session cell) where
  jobs := stuck.jobs
  wakes := stuck.wakes
  unarmed := stuck.unarmed
  suspended := by
    rw [setCell_cell_self]
    exact ⟨written, next, kept, again⟩
  scanned := by
    rw [← stuck.scanned]
    apply List.filter_congr
    intro id _
    by_cases own : id = session
    · subst own
      rw [setCell_cell_self, isResumable, isResumable, present, kept]
      simp only [suspended, again, placed, unapplied]
    · rw [Store.setCell_cell_of_ne _ _ own]

/-- A suspended session that the scan names and that parks again keeps `recover`
going for ever. -/
theorem recover_never_returns (parks : ParksAgain incarnation session)
    (stuck : Stuck partition session store) (fuel : Nat) :
    recover .memory incarnation partition fuel store = none := by
  cases fuel with
  | zero => rfl
  | succ fuel =>
    refine Loop.run_eq_none (Stuck partition session) ?_ stuck (fuel + 1)
    intro store stuck
    obtain ⟨record, job, present, suspended⟩ := stuck.suspended
    obtain ⟨cell, written, next, woken, unapplied, kept, placed, again⟩ :=
      wake_reparks parks stuck.unarmed present suspended
    refine ⟨store.setCell session cell, ?_,
      stuck.setCell present suspended unapplied kept placed again⟩
    rw [recoverOnce_of_empty stuck.jobs stuck.wakes, scanOnce, stuck.scanned, wakeAll, woken]
    rfl

end Repark

/-- Nothing that the recovery scan could take up: an idle session, a completed one,
or a suspended one all of whose completions were folded by commits. -/
def Waiting (done : List Deed) (cell : Cell) (status : SessionStatus) : Prop :=
  status = .idle ∨ status = .completed ∨
    ((∃ job, status = .suspended job) ∧ ∀ key ∈ cell.inboxKeys, key ∈ folded done)

/-- When every completion that a suspension, a park or a terminal commit has folded
was also folded by a turn, the recovery scan takes up a suspended session for new
completions only, and `recover` returns when every session waits. -/
theorem recovery_awaits_new_work {trace : List Recorded} {store : Store}
    (run : Run (graph (machine .memory)) Store.empty trace store)
    (applies : ∀ session ∈ store.sessions, AppliesLoads (deeds session trace))
    (turns : ∀ session ∈ store.sessions, ∀ key ∈ folded (deeds session trace),
      key ∈ foldedByTurn (deeds session trace)) :
    (∀ session record job, (store.cell session).record = some record →
      record.status = .suspended job →
        (session ∈ store.scanResumable record.partition ↔
          ∃ key ∈ (store.cell session).inboxKeys, key ∉ folded (deeds session trace))) ∧
    (∀ incarnation partition fuel, store.jobOutbox = [] → store.wakeOutbox = [] →
      (∀ session record, (store.cell session).record = some record →
        record.partition = partition →
          Waiting (deeds session trace) (store.cell session) record.status) →
        recover .memory incarnation partition (fuel + 1) store = some (.ok (), store)) := by
  have scan : ∀ session record job, (store.cell session).record = some record →
      record.status = .suspended job →
        (session ∈ store.scanResumable record.partition ↔
          ∃ key ∈ (store.cell session).inboxKeys, key ∉ folded (deeds session trace)) := by
    intro session record job present suspended
    have listed : session ∈ store.sessions := by
      apply (tidy_of_run run).listed
      rw [present]
      nofun
    rw [suspended_scanned_iff run (applies session listed) present suspended]
    constructor
    · rintro ⟨key, recorded, unfolded⟩
      exact ⟨key, recorded, fun folds => unfolded (turns session listed key folds)⟩
    · rintro ⟨key, recorded, unfolded⟩
      exact ⟨key, recorded, fun folds => unfolded (foldedByTurn_subset _ folds)⟩
  refine ⟨scan, ?_⟩
  intro incarnation partition fuel jobs wakes waiting
  refine Loop.run_of_returns ?_ fuel
  rw [recoverOnce_of_empty jobs wakes, scanOnce, Store.scanResumable, List.filter_eq_nil_iff.mpr]
  · rfl
  intro session listed resumable
  cases present : (store.cell session).record with
  | none =>
    rw [isResumable, present] at resumable
    cases resumable
  | some record =>
    have scanned : session ∈ store.scanResumable partition :=
      List.mem_filter.mpr ⟨listed, resumable⟩
    rw [isResumable, present, Bool.and_eq_true, decide_eq_true_eq] at resumable
    obtain ⟨rfl, awake⟩ := resumable
    rcases waiting session record present rfl with idle | completed | ⟨⟨job, suspended⟩, folds⟩
    · rw [idle] at awake
      cases awake
    · rw [completed] at awake
      cases awake
    · obtain ⟨key, recorded, unfolded⟩ := (scan session record job present suspended).mp scanned
      exact unfolded (folds key recorded)

def operatorWait : Incarnation := fun session activation =>
  .ok
    { step := .parkApproval [⟨session, "a", 2, "rm", none, none, none⟩]
      epoch := 2
      snapshot := activation.snapshot
      consumedSplices := none
      completionPayload := none
      turnSeal := none }

/-- A session suspends on a job, and the job completes. -/
def completedJob : List Op :=
  [.createSession "s" 0 [], .acquireActivationLease "s", .loadForActivation "s" 1,
    .checkpointAndEnqueue ⟨"s", 1, [], none, none, []⟩ ⟨"j", "s", 1, [], .persistent, none⟩ 1,
    .dequeueJob, .recordCompletionAndWake ⟨"s", 1, "j", []⟩, .dequeueWake,
    .acquireActivationLease "s", .loadForActivation "s" 2]

/-- The turn folds the completion; in the next turn the session waits for a job. -/
def turnThenJob : List Op :=
  completedJob ++
    [.commitTurn ⟨"s", 1, [], none, none, [(1, "j")]⟩ none 2,
      .appendSplice ⟨"s", .startTurn, [], "a", "wire"⟩ 0,
      .acquireActivationLease "s", .loadForActivation "s" 3,
      .checkpointAndEnqueue ⟨"s", 2, [], none, some 1, []⟩ ⟨"k", "s", 2, [], .persistent, none⟩ 3,
      .dequeueJob]

theorem turnThenJob_awaits_new_work :
    ∃ trace store, Run (graph (machine .memory)) Store.empty trace store ∧
      store.status "s" = some (.suspended "k") ∧ (store.cell "s").inboxKeys = [(1, "j")] ∧
      "s" ∉ store.scanResumable 0 ∧
      recover .memory operatorWait 0 1 store = some (.ok (), store) := by
  obtain ⟨trace, store, run, listed, applies, turns, present, completed, folds, jobs, wakes⟩ :=
    Run.of_checked_exec (machine .memory) Store.empty turnThenJob (fun trace store =>
      store.sessions = ["s"] ∧
        (∀ session ∈ store.sessions, AppliesLoads (deeds session trace)) ∧
        (∀ session ∈ store.sessions, ∀ key ∈ folded (deeds session trace),
          key ∈ foldedByTurn (deeds session trace)) ∧
        (store.cell "s").record = some ⟨0, 2, .suspended "k", [], 3, 1⟩ ∧
        (store.cell "s").inboxKeys = [(1, "j")] ∧
        (∀ key ∈ (store.cell "s").inboxKeys, key ∈ folded (deeds "s" trace)) ∧
        store.jobOutbox = [] ∧ store.wakeOutbox = []) (by decide +kernel)
  have own : ∀ session record, (store.cell session).record = some record → session = "s" := by
    intro session record found
    have known : session ∈ store.sessions := (tidy_of_run run).listed session (by simp [found])
    rwa [listed, List.mem_singleton] at known
  obtain ⟨scanned, recovered⟩ := recovery_awaits_new_work run applies turns
  refine ⟨trace, store, run, ?_, completed, ?_, recovered operatorWait 0 0 jobs wakes ?_⟩
  · rw [status, present]
    rfl
  · rw [scanned "s" _ "k" present rfl]
    rintro ⟨key, recorded, unfolded⟩
    exact unfolded (folds key recorded)
  · intro session record found _
    obtain rfl := own session record found
    obtain rfl := Option.some.inj (present.symm.trans found)
    exact .inr (.inr ⟨⟨"k", rfl⟩, folds⟩)

/-- The completion is folded, and the session waits for an operator. -/
def completionThenPark : List Op :=
  completedJob ++
    [.parkApproval ⟨"s", 2, [], none, none, []⟩ [⟨"s", "a", 2, "rm", none, none, none⟩] 2]

theorem completionThenPark_recovered_for_ever :
    ∃ trace store, Run (graph (machine .memory)) Store.empty trace store ∧
      (∀ session ∈ store.sessions, AppliesLoads (deeds session trace)) ∧
      store.status "s" = some (.suspended "a") ∧
      (∀ key ∈ (store.cell "s").inboxKeys, key ∈ folded (deeds "s" trace)) ∧
      "s" ∈ store.scanResumable 0 ∧
      ∀ fuel, recover .memory operatorWait 0 fuel store = none := by
  obtain ⟨trace, store, run, applies, present, folds, scanned, jobs, wakes, unarmed⟩ :=
    Run.of_checked_exec (machine .memory) Store.empty completionThenPark (fun trace store =>
      (∀ session ∈ store.sessions, AppliesLoads (deeds session trace)) ∧
        (store.cell "s").record = some ⟨0, 2, .suspended "a", [], 2, 0⟩ ∧
        (∀ key ∈ (store.cell "s").inboxKeys, key ∈ folded (deeds "s" trace)) ∧
        store.scanResumable 0 = ["s"] ∧ store.jobOutbox = [] ∧
        store.wakeOutbox = [] ∧ store.fault = none) (by decide +kernel)
  have stuck : Stuck 0 "s" store := ⟨jobs, wakes, unarmed, scanned, _, "a", present, rfl⟩
  have parks : ParksAgain operatorWait "s" := fun activation => ⟨_, _, _, rfl, rfl⟩
  refine ⟨trace, store, run, applies, ?_, folds, ?_, recover_never_returns parks stuck⟩
  · rw [status, present]
    rfl
  · rw [scanned]
    exact List.mem_singleton.mpr rfl

end DaemonNode.Activation
