import DaemonNode.Store.Operations

/-!
# What an operation does to one session

Every invariant of the store is about the cell of a session, so what an operation
can do to a cell is said once. `Cell.Move` lists the possibilities, each with the
deed that the operation's answer shows: a session created, a fence granted, an
activation loaded, a commit that took effect. `serve_done` is the inversion: an
operation makes one move in each cell.
-/

namespace DaemonNode.SessionStore

/-- The four operations that commit an activation; a park may file no approval. -/
inductive Commit
  | suspension
  | completion
  | turn
  | park (files : Bool)
  deriving DecidableEq, Repr

/-- What an operation is seen to do to a session. -/
inductive Deed
  | opened
  | granted (fence : Nat)
  | loaded (activation : Activation)
  | claimed (fence : Nat) (splices : List InboxSplice)
  | committed (commit : Commit) (checkpoint : Checkpoint) (fence : Nat)

/-- Whether a commit with this reply took effect: it succeeded, or it failed at a
boundary after its transaction. -/
def landed : Reply → Bool
  | .ok _ => true
  | .error (.fault .afterSnapshot) => true
  | .error (.fault .afterJobOutbox) => true
  | .error _ => false

def created : Op → Reply → Option SessionId
  | .createSession id _ _, .ok _ => some id
  | .createIdle id _ _, .ok _ => some id
  | .createRunnable spec _, .ok (.flag true) => some spec.id
  | _, _ => none

/-- The commit of an operation. -/
def commitOf : Op → Option (Commit × Checkpoint × Nat)
  | .checkpointAndEnqueue checkpoint _ fence => some (.suspension, checkpoint, fence)
  | .markCompleted checkpoint fence => some (.completion, checkpoint, fence)
  | .commitTurn checkpoint _ fence => some (.turn, checkpoint, fence)
  | .parkApproval checkpoint approvals fence =>
    some (.park !approvals.isEmpty, checkpoint, fence)
  | _ => none

/-- The deed of an operation, with the session it concerns. -/
def deed (op : Op) (reply : Reply) : Option (SessionId × Deed) :=
  match created op reply, commitOf op, op, reply with
  | some id, _, _, _ => some (id, .opened)
  | none, some (commit, checkpoint, fence), _, reply =>
    if landed reply then some (checkpoint.sessionId, .committed commit checkpoint fence)
    else none
  | none, none, .acquireActivationLease id, .ok (.number fence) => some (id, .granted fence)
  | none, none, .loadForActivation id _, .ok (.activation activation) =>
    some (id, .loaded activation)
  | none, none, .claimSplices id fence, .ok (.splices rows) => some (id, .claimed fence rows)
  | none, none, _, _ => none

def concerning (session : SessionId) (shown : Option (SessionId × Deed)) : Option Deed :=
  match shown with
  | some (id, done) => if id = session then some done else none
  | none => none

def deedOf (session : SessionId) (op : Op) (reply : Reply) : Option Deed :=
  concerning session (deed op reply)

theorem concerning_self (session : SessionId) (done : Deed) :
    concerning session (some (session, done)) = some done :=
  if_pos rfl

variable {session id : SessionId} {op : Op}

theorem concerning_of_ne (other : session ≠ id) (done : Deed) :
    concerning session (some (id, done)) = none :=
  if_neg (Ne.symm other)

inductive Cell.Move (backend : Backend) : Cell → Option Deed → Cell → Prop
  | same (cell : Cell) : Move backend cell none cell
  | opened (cell : Cell) (record : SessionRecord) (policy : Option ExecutionPolicy)
      (input : Option SpliceBody)
      (absent : cell.record = none)
      (unfenced : record.fence = 0)
      (status : record.status = .ready ∨ (record.status = .idle ∧ input = none)) :
      Move backend cell (some .opened) (cell.opened record policy input)
  | readied (cell : Cell) (record : SessionRecord)
      (present : cell.record = some record) :
      Move backend cell none (cell.setStatus .ready)
  | appended (cell : Cell) (record : SessionRecord) (body : SpliceBody)
      (present : cell.record = some record) :
      Move backend cell none (cell.pushSplice body).readyIfIdle
  | claimed (cell : Cell) (record : SessionRecord) (fence : Nat)
      (present : cell.record = some record)
      (current : record.fence ≤ fence) :
      Move backend cell
        (some (.claimed fence (Inbox.held fence (cell.claimSplices fence).splices)))
        (cell.claimSplices fence)
  | pruned (cell : Cell) (cutoff : Nat) :
      Move backend cell none { cell with splices := cell.splices.filter (Store.keepsSplice cutoff) }
  | granted (cell : Cell) (record : SessionRecord)
      (present : cell.record = some record) :
      Move backend cell (some (.granted (record.fence + 1)))
        { cell with record := some { record with fence := record.fence + 1, status := .active } }
  | loaded (cell : Cell) (record : SessionRecord) (fence : Nat)
      (present : cell.record = some record) :
      Move backend cell
        (some (.loaded
          { snapshot := record.snapshot
            unapplied := cell.unapplied
            fence := fence
            splices := Inbox.held fence (cell.claimSplices fence).splices
            policy := cell.policy
            turnSeq := record.turnSeq }))
        (cell.claimSplices fence)
  | suspended (cell : Cell) (record : SessionRecord) (checkpoint : Checkpoint) (job : JobId)
      (fence : Nat)
      (present : cell.record = some record)
      (current : record.fence ≤ fence) :
      Move backend cell (some (.committed .suspension checkpoint fence))
        (cell.suspend checkpoint job record)
  | completed (cell : Cell) (record : SessionRecord) (checkpoint : Checkpoint) (fence : Nat)
      (present : cell.record = some record)
      (current : record.fence ≤ fence) :
      Move backend cell (some (.committed .completion checkpoint fence))
        (cell.complete checkpoint record)
  | fulfilled (cell : Cell) (record : SessionRecord) (checkpoint : Checkpoint) (fence : Nat)
      (completion : JobCompletion)
      (present : cell.record = some record)
      (current : record.fence ≤ fence) :
      Move backend cell (some (.committed .completion checkpoint fence))
        ((cell.complete checkpoint record).applyCompletion backend completion).2
  | turned (cell : Cell) (record : SessionRecord) (checkpoint : Checkpoint) (fence : Nat)
      (present : cell.record = some record)
      (current : record.fence ≤ fence) :
      Move backend cell (some (.committed .turn checkpoint fence))
        (cell.commitTurn checkpoint record)
  | parked (cell : Cell) (record : SessionRecord) (checkpoint : Checkpoint)
      (approvals rows : List ParkedApproval) (fence : Nat)
      (present : cell.record = some record)
      (current : record.fence ≤ fence) :
      Move backend cell (some (.committed (.park !approvals.isEmpty) checkpoint fence))
        { cell.park backend checkpoint approvals record with pendingApprovals := rows }
  | recorded (cell : Cell) (completion : JobCompletion)
      (present : backend = .memory → cell.record ≠ none) :
      Move backend cell none (cell.applyCompletion backend completion).2
  | answered (cell : Cell) (row : ParkedApproval) (job : JobId) (allow : Bool)
      (completion : JobCompletion)
      (filed : row ∈ cell.pendingApprovals) :
      Move backend cell none ((cell.decideApproval job allow).applyCompletion backend completion).2
  | filed (cell : Cell) (rows : List ParkedApproval) (elsewhere : backend = .sqlite) :
      Move backend cell none { cell with pendingApprovals := rows }
  | swapped (cell : Cell) (record : SessionRecord) (snapshot : Blob)
      (present : cell.record = some record)
      (dormant : record.status ≠ .active) :
      Move backend cell none { cell with record := some { record with snapshot := snapshot } }

/-- Pruning drops consumed splices only. -/
theorem Store.isConsumed_of_dropped (dropped : Store.keepsSplice cutoff splice = false) :
    splice.claim.isConsumed = true := by
  rw [Store.keepsSplice, Bool.not_eq_false', Bool.and_eq_true] at dropped
  exact dropped.1

namespace Store

/-- The completion that ending a session delivers to its parent. -/
def fulfilment (backend : Backend) (checkpoint : Checkpoint) (store : Store) :
    Option JobCompletion :=
  match store.delegations.lookup checkpoint.sessionId with
  | none => none
  | some job =>
    match backend, (store.cell job.sessionId).record with
    | .memory, none => none
    | _, _ => some (childCompletion checkpoint job)

/-- The completion that an operation records, for the first time or again. -/
def records (backend : Backend) (store : Store) : Op → Option JobCompletion
  | .recordCompletionAndWake completion =>
    (store.cell completion.sessionId).record.map fun _ => completion
  | .markCompleted checkpoint fence =>
    match (store.cell checkpoint.sessionId).record with
    | none => none
    | some record =>
      if fence < record.fence then none else store.fulfilment backend checkpoint
  | .answerApproval session job allow allowPermanent reason =>
    match (store.cell session).pendingApprovals.find? fun row => row.jobId = job with
    | none => none
    | some row =>
      match row.decision with
      | some _ => none
      | none => some (answerCompletion session job row.epoch allow allowPermanent reason)
  | _ => none

/-- The session for which an operation records a new completion. -/
def wakes (backend : Backend) (store : Store) (op : Op) : Option SessionId :=
  match store.records backend op with
  | none => none
  | some completion =>
    if (store.cell completion.sessionId).isFresh backend completion then some completion.sessionId
    else none

/-- The record of a session after an operation that shows no deed for it. -/
inductive Shift (backend : Backend) (store : Store) (op : Op) (reply : Reply)
    (session : SessionId) : Option SessionRecord → Prop
  | same : Shift backend store op reply session (store.cell session).record
  | readied (record : SessionRecord)
      (present : (store.cell session).record = some record)
      (settled : record.status = .completed ∨ record.status = .idle) :
      Shift backend store op reply session (some { record with status := .ready })
  | woken (wakes : store.wakes backend op = some session) :
      Shift backend store op reply session
        ((store.cell session).record.map fun record => { record with status := .ready })
  | swapped (record : SessionRecord) (expected new : Blob)
      (swap : op = .swapSnapshotIfDormant session expected new)
      (answer : reply = .ok (.flag true))
      (present : (store.cell session).record = some record)
      (dormant : record.status ≠ .active) :
      Shift backend store op reply session (some { record with snapshot := new })

/-- Nothing changes in the sessions; outboxes, edges, roots and faults may. -/
structure Same (after store : Store) : Prop where
  cell : after.cell = store.cell
  sessions : after.sessions = store.sessions

/-- Nor do the roots, unless the operation is a turn. -/
structure Frame (op : Op) (after store : Store) : Prop extends Same after store where
  roots : (∀ checkpoint turnSeal fence, op ≠ .commitTurn checkpoint turnSeal fence) →
    after.journalRoots = store.journalRoots

def opens : Option (SessionId × Deed) → Option SessionId
  | some (id, .opened) => some id
  | _ => none

/-- Every cell makes a move, at most one of them shows a deed, and a session that
is created is listed. -/
structure Effect (backend : Backend) (store : Store) (shown : Option (SessionId × Deed))
    (after : Store) : Prop where
  move : ∀ session, Cell.Move backend (store.cell session) (concerning session shown)
    (after.cell session)
  sessions : after.sessions = store.sessions ++ (opens shown).toList

/-- All that an operation does: to the cells, to the records of the sessions for which it
shows no deed, and to the roots. -/
structure Done (backend : Backend) (store : Store) (op : Op) (reply : Reply) (after : Store) :
    Prop where
  effect : Effect backend store (deed op reply) after
  shift : ∀ session, deedOf session op reply = none →
    store.Shift backend op reply session (after.cell session).record
  roots : (∀ checkpoint turnSeal fence, op ≠ .commitTurn checkpoint turnSeal fence) →
    after.journalRoots = store.journalRoots

/-- The same of an operation that answers with an outcome. -/
abbrev Serves {α : Type} (backend : Backend) (store : Store) (op : Op) (render : α → Answer)
    (outcome : Outcome α) : Prop :=
  Done backend store op (outcome.1.map render) outcome.2

variable {α : Type} {store middle after : Store} {cell : Cell}

namespace Frame

@[refl] theorem refl (store : Store) : Frame op store store :=
  ⟨⟨rfl, rfl⟩, fun _ => rfl⟩

theorem trans (second : Frame op after middle) (first : Frame op middle store) :
    Frame op after store where
  cell := second.cell.trans first.cell
  sessions := second.sessions.trans first.sessions
  roots := fun other => (second.roots other).trans (first.roots other)

theorem touch (frame : Frame op after store) (cell : last.cell = after.cell)
    (sessions : last.sessions = after.sessions) (roots : last.journalRoots = after.journalRoots) :
    Frame op last store :=
  .trans ⟨⟨cell, sessions⟩, fun _ => roots⟩ frame

end Frame

/-- A refusal shows no deed, unless the transaction was written. -/
theorem deed_error (unwritten : landed (.error error) = false) : deed op (.error error) = none := by
  cases op <;> simp [deed, created, commitOf, unwritten]

theorem Effect.of_same (same : Same after store) : Effect backend store none after where
  move := by
    intro session
    rw [same.cell]
    exact .same _
  sessions := by
    rw [same.sessions]
    exact (List.append_nil _).symm

namespace Done

theorem of_frame (frame : Frame op after store) (silent : deed op reply = none) :
    Done backend store op reply after where
  effect := silent ▸ .of_same frame.toSame
  shift := by
    intro session _
    rw [frame.cell]
    exact .same
  roots := frame.roots

/-- The one cell that is written shows the deed. -/
theorem move_shown (moved : Cell.Move backend (store.cell id) (some done) cell)
    (shown : deed op reply = some (id, done)) (session : SessionId) :
    Cell.Move backend (store.cell session) (concerning session (deed op reply))
        ((store.setCell id cell).cell session) ∧
      (deedOf session op reply = none →
        store.Shift backend op reply session ((store.setCell id cell).cell session).record) := by
  rw [deedOf, shown]
  by_cases same : session = id
  · subst same
    rw [setCell_cell_self, concerning_self]
    exact ⟨moved, nofun⟩
  · rw [setCell_cell_of_ne store cell same, concerning_of_ne same]
    exact ⟨.same _, fun _ => .same⟩

theorem shown (moved : Cell.Move backend (store.cell id) (some done) cell)
    (frame : Frame op after (store.setCell id cell)) (shown : deed op reply = some (id, done))
    (closed : opens (some (id, done)) = none) : Done backend store op reply after where
  effect := by
    refine ⟨fun session => ?_, ?_⟩
    · rw [frame.cell]
      exact (move_shown moved shown session).1
    · rw [shown, closed, frame.sessions]
      exact (List.append_nil _).symm
  shift := by
    intro session
    rw [frame.cell]
    exact (move_shown moved shown session).2
  roots := frame.roots

theorem opened (moved : Cell.Move backend (store.cell id) (some .opened) cell)
    (frame : Frame op after (store.addSession id cell))
    (shown : deed op reply = some (id, .opened)) : Done backend store op reply after where
  effect := by
    refine ⟨fun session => ?_, ?_⟩
    · rw [frame.cell]
      exact (move_shown moved shown session).1
    · rw [shown, frame.sessions]
      rfl
  shift := by
    intro session
    rw [frame.cell]
    exact (move_shown moved shown session).2
  roots := frame.roots

/-- One more cell is written, without a deed. -/
theorem also (done : Done backend store op reply middle)
    (moved : Cell.Move backend (store.cell id) none cell)
    (unconcerned : concerning id (deed op reply) = none)
    (frame : Frame op after (middle.setCell id cell))
    (own : store.Shift backend op reply id cell.record) : Done backend store op reply after where
  effect := by
    refine ⟨fun session => ?_, frame.sessions.trans done.effect.sessions⟩
    rw [frame.cell]
    by_cases same : session = id
    · subst same
      rw [setCell_cell_self, unconcerned]
      exact moved
    · rw [setCell_cell_of_ne middle cell same]
      exact done.effect.move session
  shift := by
    intro session silent
    rw [frame.cell]
    by_cases same : session = id
    · subst same
      rw [setCell_cell_self]
      exact own
    · rw [setCell_cell_of_ne middle cell same]
      exact done.shift session silent
  roots := fun other => (frame.roots other).trans (done.roots other)

theorem silent (moved : Cell.Move backend (store.cell id) none cell)
    (frame : Frame op after (store.setCell id cell)) (silent : deed op reply = none)
    (own : store.Shift backend op reply id cell.record) : Done backend store op reply after :=
  .also (.of_frame (.refl store) silent) moved (by rw [silent]; rfl) frame own

/-- A guarded operation on an existing session. -/
theorem withRecord
    (found : ∀ record, (store.cell id).record = some record →
      Serves backend store op render (next record)) :
    Serves backend store op render (store.withRecord id next) := by
  unfold Store.withRecord
  split
  · exact .of_frame (.refl store) (deed_error rfl)
  · rename_i record present
    exact found record present

theorem checkFence
    (found : ∀ record, (store.cell id).record = some record → record.fence ≤ fence →
      Serves backend store op render (next record)) :
    Serves backend store op render (store.checkFence id fence next) := by
  refine .withRecord fun record present => ?_
  split
  · exact .of_frame (.refl store) (deed_error rfl)
  · rename_i current
    exact found record present (Nat.le_of_not_lt current)

theorem takeFault
    (faulted : Done backend store op (.error (.fault point)) { middle with fault := none })
    (passed : Serves backend store op render (next middle)) :
    Serves backend store op render (middle.takeFault point next) := by
  unfold Store.takeFault
  split
  · exact faulted
  · exact passed

end Done

theorem frame_indexChild (backend : Backend) (once : Bool) (parent child : SessionId)
    (store : Store) : Frame op (store.indexChild backend once parent child) store := by
  unfold indexChild
  cases backend with
  | sqlite => rfl
  | memory =>
    dsimp only
    split
    · rfl
    · exact ⟨⟨rfl, rfl⟩, fun _ => rfl⟩

theorem frame_putEdge (backend : Backend) (child : SessionId) (edge : Option RunnableEdge)
    (store : Store) : Frame op (store.putEdge backend child edge) store := by
  unfold putEdge
  split
  any_goals exact (frame_indexChild backend true _ child store).touch rfl rfl rfl
  rfl

theorem frame_enqueueJob (backend : Backend) (job : JobCommand) (store : Store) :
    Frame op (store.enqueueJob backend job) store := by
  unfold enqueueJob
  split
  · rfl
  · exact ⟨⟨rfl, rfl⟩, fun _ => rfl⟩

theorem frame_notify (checkpoint : Checkpoint) (store : Store) :
    Frame op (store.notify checkpoint) store := by
  unfold notify
  split
  · rfl
  · split
    · rfl
    · exact ⟨⟨rfl, rfl⟩, fun _ => rfl⟩

theorem frame_wakeIfReady (id : SessionId) (status : SessionStatus) (store : Store) :
    Frame op (store.wakeIfReady id status) store := by
  unfold wakeIfReady
  split
  · exact ⟨⟨rfl, rfl⟩, fun _ => rfl⟩
  · rfl

/-- Recording a completion replaces the cell of its session. -/
theorem frame_applyAndWake (backend : Backend) (completion : JobCompletion) (store : Store) :
    Frame op (store.applyAndWake backend completion)
      (store.setCell completion.sessionId
        ((store.cell completion.sessionId).applyCompletion backend completion).2) := by
  unfold applyAndWake
  split
  · rename_i cell fresh
    rw [fresh]
    exact ⟨⟨rfl, rfl⟩, fun _ => rfl⟩
  · rename_i cell stale
    have unchanged : cell = store.cell completion.sessionId := by
      unfold Cell.applyCompletion at stale
      split at stale
      · cases stale
      · exact (Prod.mk.inj stale).2.symm
    rw [stale, unchanged]
    exact ⟨⟨(Function.update_eq_self completion.sessionId store.cell).symm, rfl⟩, fun _ => rfl⟩

/-- A completion that an operation records makes the session ready, if it is new. -/
theorem Shift.applied (recorded : store.records backend op = some completion)
    (kept : cell.record = (store.cell completion.sessionId).record)
    (fresh : cell.isFresh backend completion =
      (store.cell completion.sessionId).isFresh backend completion) :
    store.Shift backend op reply completion.sessionId
      (cell.applyCompletion backend completion).2.record := by
  unfold Cell.applyCompletion
  split
  · rename_i new
    have wakes : store.wakes backend op = some completion.sessionId := by
      rw [wakes, recorded]
      exact if_pos (fresh ▸ new)
    change store.Shift backend op reply _ (cell.record.map _)
    rw [kept]
    exact .woken wakes
  · rw [kept]
    exact .same

theorem Shift.readyIfIdle (kept : cell.record = (store.cell id).record) :
    store.Shift backend op reply id cell.readyIfIdle.record := by
  unfold Cell.readyIfIdle
  split
  · rename_i idle
    obtain ⟨record, present, settled⟩ := Option.map_eq_some_iff.mp idle
    rw [Cell.setStatus, present]
    exact .readied record (kept.symm.trans present) (.inr settled)
  · rw [kept]
    exact .same

theorem foldl_fileApproval (approvals : List ParkedApproval) (cell : Cell) :
    ∃ rows, approvals.foldl Cell.fileApproval cell = { cell with pendingApprovals := rows } := by
  induction approvals generalizing cell with
  | nil => exact ⟨cell.pendingApprovals, rfl⟩
  | cons approval approvals ih =>
    rw [List.foldl_cons, Cell.fileApproval]
    split
    · exact ih cell
    · obtain ⟨rows, filed⟩ := ih
        { cell with pendingApprovals := cell.pendingApprovals ++ [approval] }
      exact ⟨rows, filed⟩

/-- Filing approvals changes nothing but cells. -/
theorem fileApprovals_frame (backend : Backend) (id : SessionId)
    (approvals : List ParkedApproval) (store : Store) :
    ∃ cell, store.fileApprovals backend id approvals = { store with cell } := by
  cases backend with
  | memory => exact ⟨_, rfl⟩
  | sqlite =>
    rw [fileApprovals]
    induction approvals generalizing store with
    | nil => exact ⟨store.cell, rfl⟩
    | cons approval approvals ih =>
      obtain ⟨cell, filed⟩ := ih (store.setCell approval.sessionId
        ((store.cell approval.sessionId).fileApproval { approval with decision := none }))
      exact ⟨cell, filed⟩

/-- Filing approvals changes nothing but the approvals, and in memory only those
of the session that parks. -/
theorem fileApprovals_cell (backend : Backend) (id : SessionId) (approvals : List ParkedApproval)
    (store : Store) (session : SessionId) :
    (backend = .memory ∧ session ≠ id ∧
        (store.fileApprovals backend id approvals).cell session = store.cell session) ∨
      ((session = id ∨ backend = .sqlite) ∧
        ∃ rows, (store.fileApprovals backend id approvals).cell session =
          { store.cell session with pendingApprovals := rows }) := by
  cases backend with
  | memory =>
    rw [fileApprovals]
    by_cases same : session = id
    · subst same
      rw [setCell_cell_self]
      exact .inr ⟨.inl rfl, foldl_fileApproval approvals (store.cell session)⟩
    · exact .inl ⟨rfl, same, setCell_cell_of_ne store _ same⟩
  | sqlite =>
    refine .inr ⟨.inr rfl, ?_⟩
    rw [fileApprovals]
    induction approvals generalizing store with
    | nil => exact ⟨(store.cell session).pendingApprovals, rfl⟩
    | cons approval approvals ih =>
      rw [List.foldl_cons]
      obtain ⟨rows, filed⟩ := ih
        (store.setCell approval.sessionId
          ((store.cell approval.sessionId).fileApproval { approval with decision := none }))
      refine ⟨rows, filed.trans ?_⟩
      by_cases same : session = approval.sessionId
      · subst same
        rw [setCell_cell_self, Cell.fileApproval]
        split
        · rfl
        · rfl
      · rw [setCell_cell_of_ne store _ same]

/-- A session that does not exist is created. -/
theorem insertFresh_done (record : SessionRecord) (policy : Option ExecutionPolicy)
    (unfenced : record.fence = 0) (status : record.status = .ready ∨ record.status = .idle)
    (creates : created op (.ok .done) = some id) :
    Serves backend store op (fun _ => .done)
      (store.insertFresh id { store.cell id with record := some record, policy := policy }) := by
  unfold insertFresh
  split
  · exact .of_frame (.refl store) (deed_error rfl)
  · rename_i absent
    rw [Bool.not_eq_true, Option.isSome_eq_false_iff, Option.isNone_iff_eq_none] at absent
    have shown : deed op (.ok .done) = some (id, .opened) := by
      simp [deed, creates]
    exact .opened (.opened (store.cell id) record policy none absent unfenced
      (status.imp_right fun idle => ⟨idle, rfl⟩)) (.refl _) shown

theorem createRunnable_done :
    Serves backend store (.createRunnable spec now) .flag
      (store.createRunnable backend spec now) := by
  unfold createRunnable
  split
  · exact .of_frame (.refl store) rfl
  · rename_i absent
    rw [Bool.not_eq_true, Option.isSome_eq_false_iff, Option.isNone_iff_eq_none] at absent
    refine .takeFault (.of_frame ⟨⟨rfl, rfl⟩, fun _ => rfl⟩ rfl) ?_
    have edged : Frame (.createRunnable spec now) _ store :=
      frame_putEdge backend spec.id spec.edge store
    refine .opened (.opened (store.cell spec.id) (freshRecord spec.partition spec.snapshot .ready)
      (some spec.policy) (firstSplice spec now) absent rfl (.inl rfl)) ⟨⟨?_, ?_⟩, edged.roots⟩ rfl
    · rw [addSession, setCell, edged.cell, addSession, setCell]
    · rw [addSession, edged.sessions, addSession]

theorem readyIf_done {status : SessionStatus} (settled : status = .completed ∨ status = .idle)
    (shows : ∀ value, deed op (.ok (.flag value)) = none) :
    Serves backend store op .flag (store.readyIf status id) := by
  refine .withRecord fun record present => ?_
  split
  · rename_i found
    refine .silent (.readied _ record present) (.refl _) (shows true) ?_
    rw [Cell.setStatus, present]
    exact .readied record present (found ▸ settled)
  · exact .of_frame (.refl store) (shows false)

theorem checkpointAndEnqueue_done :
    Serves backend store (.checkpointAndEnqueue checkpoint job fence) (fun _ => .done)
      (store.checkpointAndEnqueue backend checkpoint job fence) := by
  refine .checkFence fun record present current => ?_
  have written (reply : Reply) (fault : Option FaultPoint) (lands : landed reply = true) :
      Done backend store (.checkpointAndEnqueue checkpoint job fence) reply
        { (store.setCell checkpoint.sessionId ((store.cell checkpoint.sessionId).suspend checkpoint
          job.jobId record)).enqueueJob backend job with fault } :=
    .shown (.suspended _ record checkpoint job.jobId fence present current)
      ((frame_enqueueJob backend job _).touch rfl rfl rfl) (if_pos lands) rfl
  refine .takeFault (.of_frame ⟨⟨rfl, rfl⟩, fun _ => rfl⟩ rfl) ?_
  -- from here on the transaction is written, whatever is answered
  refine .takeFault (written _ none rfl) (.takeFault (written _ none rfl) ?_)
  exact written _ _ rfl

theorem fulfil_eq (checkpoint : Checkpoint) :
    store.fulfil backend checkpoint =
      match store.fulfilment backend checkpoint with
      | none => store
      | some completion => store.applyAndWake backend completion := by
  unfold fulfilment fulfil
  cases store.delegations.lookup checkpoint.sessionId with
  | none => rfl
  | some job =>
    dsimp only
    cases backend with
    | sqlite => rfl
    | memory => cases (store.cell job.sessionId).record <;> rfl

/-- The end of a session is told to the same parent once it is written. -/
theorem fulfilment_setCell (present : (store.cell checkpoint.sessionId).record = some record) :
    (store.setCell checkpoint.sessionId
      ((store.cell checkpoint.sessionId).complete checkpoint record)).fulfilment backend
        checkpoint = store.fulfilment backend checkpoint := by
  unfold fulfilment
  cases delegated : store.delegations.lookup checkpoint.sessionId with
  | none => simp only [setCell, delegated]
  | some job =>
    simp only [setCell, delegated]
    by_cases own : job.sessionId = checkpoint.sessionId
    · rw [own, Function.update_self, present]
      cases backend with
      | memory | sqlite => rfl
    · rw [Function.update_of_ne own]

/-- A session that ends may complete a job of another session or of its own. -/
theorem markCompleted_done :
    Serves backend store (.markCompleted checkpoint fence) (fun _ => .done)
      (store.markCompleted backend checkpoint fence) := by
  refine .checkFence fun record present current => ?_
  dsimp only
  generalize told : (Store.notify _ _) = after
  have notified : Frame (.markCompleted checkpoint fence) after _ := told ▸ frame_notify _ _
  rw [fulfil_eq, fulfilment_setCell present] at notified
  cases delivered : store.fulfilment backend checkpoint with
  | none =>
    rw [delivered] at notified
    exact .shown (.completed _ record checkpoint fence present current) notified rfl rfl
  | some completion =>
    rw [delivered] at notified
    have applied := notified.trans (frame_applyAndWake backend completion _)
    by_cases own : completion.sessionId = checkpoint.sessionId
    · rw [own, setCell_cell_self, setCell_setCell] at applied
      exact .shown (.fulfilled _ record checkpoint fence completion present current) applied rfl rfl
    · rw [setCell_cell_of_ne _ _ own] at applied
      have recorded : store.records backend (.markCompleted checkpoint fence) =
          some completion := by
        rw [records, present]
        exact (if_neg (Nat.not_lt_of_le current)).trans delivered
      have ended : Done backend store (.markCompleted checkpoint fence) (.ok .done) _ :=
        .shown (.completed _ record checkpoint fence present current) (.refl _) rfl rfl
      refine ended.also (.recorded _ completion ?_) (concerning_of_ne own _) applied
        (.applied recorded rfl rfl)
      rintro rfl
      -- in memory a parent is told only if it exists
      unfold fulfilment at delivered
      split at delivered
      · cases delivered
      rename_i job _
      intro absent
      split at delivered
      · cases delivered
      · rename_i exists_
        cases delivered
        exact exists_ rfl absent

theorem commitTurn_done :
    Serves backend store (.commitTurn checkpoint turnSeal fence) .turn
      (store.commitTurn checkpoint turnSeal fence) := by
  refine .checkFence fun record present current => ?_
  split
  · rename_i error mismatch
    have other : ∃ text, error = .common text := by
      unfold sealsOther at mismatch
      split at mismatch
      · split at mismatch
        · exact ⟨_, (Option.some.inj mismatch).symm⟩
        · cases mismatch
      · cases mismatch
    obtain ⟨text, rfl⟩ := other
    exact .of_frame (.refl store) rfl
  · refine .takeFault (.of_frame ⟨⟨rfl, rfl⟩, fun _ => rfl⟩ rfl) ?_
    refine .shown (.turned _ record checkpoint fence present current)
      ((frame_wakeIfReady checkpoint.sessionId _ _).trans ⟨?_, ?_⟩) rfl rfl
    · cases turnSeal with
      | none | some => exact ⟨rfl, rfl⟩
    · exact fun other => absurd rfl (other checkpoint turnSeal fence)

theorem recordCompletionAndWake_done :
    Serves backend store (.recordCompletionAndWake completion) (fun _ => .done)
      (store.recordCompletionAndWake backend completion) := by
  refine .withRecord fun record present => ?_
  split
  · exact .of_frame (.refl store) rfl
  · rename_i cell fresh
    have applied :
        cell = ((store.cell completion.sessionId).applyCompletion backend completion).2 := by
      rw [fresh]
    subst applied
    have written (reply : Reply) (fault : Option FaultPoint) (queue : List SessionId) :
        Done backend store (.recordCompletionAndWake completion) reply
          { store.setCell completion.sessionId ((store.cell completion.sessionId).applyCompletion
            backend completion).2 with fault, wakeOutbox := queue } := by
      refine .silent (.recorded _ completion fun _ => ?_) ⟨⟨rfl, rfl⟩, fun _ => rfl⟩ rfl
        (.applied ?_ rfl rfl)
      · rw [present]
        nofun
      · rw [records, present]
        rfl
    exact .takeFault (written _ none _) (written _ _ _)

/-- A park writes its own cell; in SQLite it may file approvals in any cell. -/
theorem parkApproval_done :
    Serves backend store (.parkApproval checkpoint approvals fence) (fun _ => .done)
      (store.parkApproval backend checkpoint approvals fence) := by
  refine .checkFence fun record present current => ?_
  have written (reply : Reply) (fault : Option FaultPoint) (lands : landed reply = true) :
      Done backend store (.parkApproval checkpoint approvals fence) reply
        { (store.setCell checkpoint.sessionId ((store.cell checkpoint.sessionId).park backend
            checkpoint approvals record)).fileApprovals backend checkpoint.sessionId approvals with
          fault } := by
    obtain ⟨cells, filed⟩ := fileApprovals_frame backend checkpoint.sessionId approvals
      (store.setCell checkpoint.sessionId
        ((store.cell checkpoint.sessionId).park backend checkpoint approvals record))
    have shown : deed (.parkApproval checkpoint approvals fence) reply =
        some (checkpoint.sessionId, .committed (.park !approvals.isEmpty) checkpoint fence) :=
      if_pos lands
    have parts (session : SessionId) := fileApprovals_cell backend checkpoint.sessionId approvals
      (store.setCell checkpoint.sessionId
        ((store.cell checkpoint.sessionId).park backend checkpoint approvals record)) session
    refine ⟨⟨fun session => ?_, ?_⟩, fun session silent => ?_, ?_⟩
    · rw [shown]
      by_cases own : session = checkpoint.sessionId
      · subst own
        rw [concerning_self]
        rcases parts checkpoint.sessionId with ⟨_, other, _⟩ | ⟨_, rows, written⟩
        · exact absurd rfl other
        · rw [written, setCell_cell_self]
          exact .parked _ record checkpoint approvals rows fence present current
      · rw [concerning_of_ne own]
        rcases parts session with ⟨_, _, unchanged⟩ | ⟨same | sqlite, rows, written⟩
        · rw [unchanged, setCell_cell_of_ne _ _ own]
          exact .same _
        · exact absurd same own
        · rw [written, setCell_cell_of_ne _ _ own]
          exact .filed _ rows sqlite
    · rw [shown, filed]
      exact (List.append_nil _).symm
    · have own : session ≠ checkpoint.sessionId := by
        rintro rfl
        rw [deedOf, shown, concerning_self] at silent
        cases silent
      rcases parts session with ⟨_, _, unchanged⟩ | ⟨_, rows, written⟩
      · rw [unchanged, setCell_cell_of_ne _ _ own]
        exact .same
      · rw [written, setCell_cell_of_ne _ _ own]
        exact .same
    · rw [filed]
      exact fun _ => rfl
  refine .takeFault (.of_frame ⟨⟨rfl, rfl⟩, fun _ => rfl⟩ rfl) ?_
  cases backend with
  | memory => exact written _ _ rfl
  | sqlite => exact .takeFault (written _ none rfl) (written _ _ rfl)

theorem answerApproval_done :
    Serves backend store (.answerApproval id job allow allowPermanent reason) .flag
      (store.answerApproval backend id job allow allowPermanent reason) := by
  unfold answerApproval
  dsimp only
  split
  · exact .of_frame (.refl store) rfl
  · rename_i row found
    split
    · exact .of_frame (.refl store) rfl
    · rename_i undecided
      have applied : Frame (.answerApproval id job allow allowPermanent reason) _ _ :=
        frame_applyAndWake backend
          (answerCompletion id job row.epoch allow allowPermanent reason)
          (store.setCell id ((store.cell id).decideApproval job allow))
      rw [show (answerCompletion id job row.epoch allow allowPermanent reason).sessionId = id
        from rfl, setCell_cell_self, setCell_setCell] at applied
      have recorded : store.records backend (.answerApproval id job allow allowPermanent reason) =
          some (answerCompletion id job row.epoch allow allowPermanent reason) := by
        simp only [records, found, undecided]
      exact .silent (.answered _ row job allow _ (List.mem_of_find?_eq_some found)) applied rfl
        (Shift.applied recorded rfl rfl)

end Store

/-- An operation makes one move in every cell. -/
theorem serve_done (served : serve backend store op = (reply, after)) :
    Store.Done backend store op reply after := by
  obtain rfl : (serve backend store op).1 = reply := congrArg Prod.fst served
  obtain rfl : (serve backend store op).2 = after := congrArg Prod.snd served
  cases op with
  | createSession => exact Store.insertFresh_done _ _ rfl (.inl rfl) rfl
  | createIdle => exact Store.insertFresh_done _ _ rfl (.inr rfl) rfl
  | createRunnable => exact Store.createRunnable_done
  | reopenIfSettled => exact Store.readyIf_done (.inl rfl) fun _ => rfl
  | markReadyIfIdle => exact Store.readyIf_done (.inr rfl) fun _ => rfl
  | appendSplice =>
    refine .withRecord fun record present => ?_
    dsimp only
    split
    · exact .of_frame (.refl store) rfl
    · exact .silent (.appended _ record _ present) (.refl _) rfl (.readyIfIdle rfl)
  | claimSplices _ fence =>
    refine .checkFence fun record present current => ?_
    exact .shown (.claimed _ record fence present current) (.refl _) rfl rfl
  | pruneConsumedSplices cutoff =>
    exact ⟨⟨fun session => .pruned _ cutoff, (List.append_nil _).symm⟩, fun _ _ => .same,
      fun _ => rfl⟩
  | acquireActivationLease =>
    refine .withRecord fun record present => ?_
    exact .shown (.granted _ record present) (.refl _) rfl rfl
  | loadForActivation _ fence =>
    refine .withRecord fun record present => ?_
    exact .shown (.loaded _ record fence present) (.refl _) rfl rfl
  | checkpointAndEnqueue => exact Store.checkpointAndEnqueue_done
  | markCompleted => exact Store.markCompleted_done
  | commitTurn => exact Store.commitTurn_done
  | recordCompletionAndWake => exact Store.recordCompletionAndWake_done
  | parkApproval => exact Store.parkApproval_done
  | answerApproval => exact Store.answerApproval_done
  | bindDelegation child | recordChildEdge _ child =>
    exact .of_frame ((Store.frame_indexChild backend false _ child store).touch rfl rfl rfl) rfl
  | bindCompletionNotice child =>
    exact .of_frame ((Store.frame_indexChild backend true _ child store).touch rfl rfl rfl) rfl
  | swapSnapshotIfDormant id expected new =>
    refine .withRecord fun record present => ?_
    split
    · exact .of_frame (.refl store) rfl
    · rename_i dormant
      exact .silent (.swapped _ record new present fun active => dormant (.inl active))
        (.refl _) rfl
        (.swapped record expected new rfl rfl present fun active => dormant (.inl active))
  -- the queues and the armed fault
  | _ => exact .of_frame ⟨⟨rfl, rfl⟩, fun _ => rfl⟩ rfl

/-- The deeds that a recorded operation shows for a session: at most one. -/
def deedsOf (session : SessionId) (recorded : Recorded) : List Deed :=
  recorded.output.filterMap (deedOf session recorded.input)

/-- The deeds for a session along a run. -/
def deeds (session : SessionId) (trace : List Recorded) : List Deed :=
  trace.flatMap (deedsOf session)

@[simp] theorem deeds_append (session : SessionId) (earlier later : List Recorded) :
    deeds session (earlier ++ later) = deeds session earlier ++ deeds session later :=
  List.flatMap_append

theorem deeds_singleton (session : SessionId) (store after : Store) (op : Op) (reply : Reply) :
    deeds session [⟨store, op, after, [reply]⟩] = (deedOf session op reply).toList := by
  rw [deeds, List.flatMap_singleton, deedsOf]
  cases shown : deedOf session op reply with
  | none | some => simp [shown]

/-- A step of the machine serves its operation. -/
theorem serve_of_step (stepped : Machine.graph (machine backend) store op output after) :
    ∃ reply, output = [reply] ∧ serve backend store op = (reply, after) := by
  obtain ⟨same, answered⟩ := Prod.mk.inj (Option.some.inj stepped)
  exact ⟨_, answered.symm, Prod.ext rfl same⟩

theorem machine_step (stepped : Machine.graph (machine backend) store op output after) :
    ∃ reply, output = [reply] ∧ Store.Effect backend store (deed op reply) after ∧
      ∀ session, deeds session [⟨store, op, after, output⟩] = (deedOf session op reply).toList := by
  obtain ⟨reply, rfl, served⟩ := serve_of_step stepped
  exact ⟨reply, rfl, (serve_done served).effect,
    fun session => deeds_singleton session store after op reply⟩

end DaemonNode.SessionStore
