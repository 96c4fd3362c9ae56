import DaemonNode.Lib.Machine
import DaemonNode.Store.State

/-!
# The operations of the session store

Each operation returns its result and the store it leaves; it runs under the
store's lock, or as one transaction, so it is one step. Where the two backends
differ the operation asks for the backend. A commit is checked against the
newest fence of its session before it writes anything.

Reads that change nothing (`status`, `scanResumable`, `childrenOf`, …) are
functions of the store and not steps.
-/

namespace DaemonNode.SessionStore

/-- The result of an operation and the store it leaves. -/
abbrev Outcome (α : Type) := Except StoreError α × Store

def utf8 (text : String) : Blob :=
  (text.toList.flatMap String.utf8EncodeChar).map fun byte => Fin.ofNat 256 byte.toNat

def insertOrReplace {α : Type} (key : SessionId) (value : α) (rows : List (SessionId × α)) :
    List (SessionId × α) :=
  (key, value) :: rows.filter fun row => row.1 != key

def insertOrIgnore {α : Type} (key : SessionId) (value : α) (rows : List (SessionId × α)) :
    List (SessionId × α) :=
  if (rows.lookup key).isSome then rows else rows ++ [(key, value)]

namespace Store

variable (backend : Backend) (id : SessionId) (checkpoint : Checkpoint)

/-- Fail at an armed boundary, disarming it; otherwise go on. -/
def takeFault {α : Type} (point : FaultPoint) (store : Store) (next : Store → Outcome α) :
    Outcome α :=
  if store.fault = some point then (.error (.fault point), { store with fault := none })
  else next store

/-- Go on with the record of a session that exists. -/
def withRecord {α : Type} (id : SessionId) (store : Store) (next : SessionRecord → Outcome α) :
    Outcome α :=
  match (store.cell id).record with
  | none => (.error (.notFound id), store)
  | some record => next record

/-- Go on unless a newer fence was granted. -/
def checkFence {α : Type} (id : SessionId) (fence : Nat) (store : Store)
    (next : SessionRecord → Outcome α) : Outcome α :=
  store.withRecord id fun record =>
    if fence < record.fence then (.error (.fenced fence record.fence), store)
    else next record

/-- A fresh row. -/
def freshRecord (partition : Nat) (snapshot : Blob) (status : SessionStatus) : SessionRecord where
  partition := partition
  epoch := 0
  status := status
  snapshot := snapshot
  fence := 0
  turnSeq := 0

/-- Give a session its first cell with a record. -/
def addSession (cell : Cell) (store : Store) : Store :=
  { store.setCell id cell with sessions := store.sessions ++ [id] }

/-- Insert a session unless it exists. -/
def insertFresh (cell : Cell) (store : Store) : Outcome Unit :=
  if (store.cell id).record.isSome then (.error (.alreadyExists id), store)
  else (.ok (), store.addSession id cell)

def createSession (partition : Nat) (snapshot : Blob) (store : Store) : Outcome Unit :=
  store.insertFresh id { store.cell id with record := some (freshRecord partition snapshot .ready) }

def createIdle (partition : Nat) (snapshot : Blob) (store : Store) : Outcome Unit :=
  store.insertFresh id
    { store.cell id with
      record := some (freshRecord partition snapshot .idle)
      policy := some .interactiveRoot }

/-- Put a child into its parent's index, if the backend has one. -/
def indexChild (once : Bool) (parent child : SessionId) (store : Store) : Store :=
  match backend with
  | .sqlite => store
  | .memory =>
    if once && (store.childIndex parent).contains child then store
    else
      { store with
        childIndex := Function.update store.childIndex parent (store.childIndex parent ++ [child]) }

/-- Write a delegation row: the last bind wins in memory, the first in SQLite. -/
def putDelegation (child : SessionId) (job : JobCommand) (store : Store) : Store :=
  { store with
    delegations :=
      match backend with
      | .memory => insertOrReplace child job store.delegations
      | .sqlite => insertOrIgnore child job store.delegations }

/-- Write a notice edge: the first bind wins. -/
def putNotice (child parent : SessionId) (callId : Option String) (store : Store) : Store :=
  { store with completionNotices := insertOrIgnore child (parent, callId) store.completionNotices }

/-- Write a background edge: the last bind wins in memory, the first in SQLite. -/
def putBackground (child parent : SessionId) (label : String) (store : Store) : Store :=
  { store with
    backgroundEdges :=
      match backend with
      | .memory => insertOrReplace child (parent, label) store.backgroundEdges
      | .sqlite => insertOrIgnore child (parent, label) store.backgroundEdges }

/-- Write the edge of a session that is being created. -/
def putEdge (child : SessionId) (edge : Option RunnableEdge) (store : Store) : Store :=
  match edge with
  | some (.delegation job) =>
    (store.indexChild backend true job.sessionId child).putDelegation backend child job
  | some (.completionNotice parent callId) =>
    (store.indexChild backend true parent child).putNotice child parent callId
  | some (.childEdge parent label) =>
    (store.indexChild backend true parent child).putBackground backend child parent label
  | none => store

/-- The splice that carries the first input of a session. -/
def firstSplice (spec : RunnableSession) (now : Nat) : Option SpliceBody :=
  spec.firstInput.map fun input =>
    { kind := .startTurn
      payload := input
      originOp := "first-input"
      origin := "factory"
      receivedAtMs := now }

/-- Create a session with everything it needs to run; `now` is the clock. -/
def createRunnable (spec : RunnableSession) (now : Nat) (store : Store) : Outcome Bool :=
  if (store.cell spec.id).record.isSome then (.ok false, store)
  else
    store.takeFault .midRunnableConstruction fun store =>
      (.ok true,
        (store.putEdge backend spec.id spec.edge).addSession spec.id
          ((store.cell spec.id).opened (freshRecord spec.partition spec.snapshot .ready)
            (some spec.policy) (firstSplice spec now)))

def readyIf (status : SessionStatus) (id : SessionId) (store : Store) : Outcome Bool :=
  store.withRecord id fun record =>
    if record.status = status then (.ok true, store.setCell id ((store.cell id).setStatus .ready))
    else (.ok false, store)

def reopenIfSettled (store : Store) : Outcome Bool :=
  store.readyIf .completed id

def markReadyIfIdle (store : Store) : Outcome Bool :=
  store.readyIf .idle id

/-- Append an input, or return the number it was given before. -/
def appendSplice (splice : NewSplice) (now : Nat) (store : Store) : Outcome Nat :=
  store.withRecord splice.sessionId fun _ =>
    let cell := store.cell splice.sessionId
    match cell.splices.find? fun row => row.body.originOp = splice.originOp with
    | some existing => (.ok existing.seq, store)
    | none =>
      let body : SpliceBody :=
        { kind := splice.kind
          payload := splice.payload
          originOp := splice.originOp
          origin := splice.origin
          receivedAtMs := now }
      (.ok (cell.spliceSeq + 1), store.setCell splice.sessionId (cell.pushSplice body).readyIfIdle)

/-- Claim the inbox for a fence and return what the fence then holds. -/
def claimSplices (fence : Nat) (store : Store) : Outcome (List InboxSplice) :=
  store.checkFence id fence fun _ =>
    let cell := (store.cell id).claimSplices fence
    (.ok (Inbox.held fence cell.splices), store.setCell id cell)

/-- Whether pruning at a cutoff keeps a splice. -/
def keepsSplice (cutoff : Nat) (splice : InboxSplice) : Bool :=
  !(splice.claim.isConsumed && decide (splice.body.receivedAtMs < cutoff))

/-- Drop consumed splices received before the cutoff, in every session. -/
def pruneConsumedSplices (cutoff : Nat) (store : Store) : Outcome Nat :=
  let pruned (id : SessionId) : Nat :=
    (store.cell id).splices.countP fun splice => !keepsSplice cutoff splice
  (.ok (store.sessions.map pruned).sum,
    { store with
      cell := fun id =>
        { store.cell id with splices := (store.cell id).splices.filter (keepsSplice cutoff) } })

/-- Grant the next fence; the session becomes active. -/
def acquireActivationLease (store : Store) : Outcome Nat :=
  store.withRecord id fun record =>
    (.ok (record.fence + 1),
      store.setCell id
        { store.cell id with
          record := some { record with fence := record.fence + 1, status := .active } })

/-- Load a session and claim its inbox; the fence is not checked. -/
def loadForActivation (fence : Nat) (store : Store) : Outcome Activation :=
  store.withRecord id fun record =>
    let cell := (store.cell id).claimSplices fence
    (.ok
      { snapshot := record.snapshot
        unapplied := cell.unapplied
        fence := fence
        splices := Inbox.held fence cell.splices
        policy := cell.policy
        turnSeq := record.turnSeq },
      store.setCell id cell)

/-- Put a job into the outbox, unless its name was enqueued before. The SQLite
row of such a job has no child. -/
def enqueueJob (job : JobCommand) (store : Store) : Store :=
  if store.enqueuedJobs.contains job.jobId then store
  else
    { store with
      enqueuedJobs := store.enqueuedJobs ++ [job.jobId]
      jobOutbox := store.jobOutbox ++
        [match backend with
         | .memory => job
         | .sqlite => { job with child := none }] }

/-- Suspend a session on a job. -/
def checkpointAndEnqueue (job : JobCommand) (fence : Nat) (store : Store) : Outcome Unit :=
  store.checkFence checkpoint.sessionId fence fun record =>
    store.takeFault .beforeSnapshot fun store =>
      let cell := (store.cell checkpoint.sessionId).suspend checkpoint job.jobId record
      let committed := (store.setCell checkpoint.sessionId cell).enqueueJob backend job
      committed.takeFault .afterSnapshot fun store =>
        store.takeFault .afterJobOutbox fun store => (.ok (), store)

/-- Record a completion and, if it was fresh, queue a wake. -/
def applyAndWake (completion : JobCompletion) (store : Store) : Store :=
  match (store.cell completion.sessionId).applyCompletion backend completion with
  | (true, cell) =>
    { store.setCell completion.sessionId cell with
      wakeOutbox := store.wakeOutbox ++ [completion.sessionId] }
  | (false, _) => store

/-- What a session leaves behind when it ends. -/
def endPayload : Blob :=
  checkpoint.completionPayload.getD (utf8 ("child:" ++ checkpoint.sessionId))

/-- The completion of the job that delegated the session. -/
def childCompletion (job : JobCommand) : JobCompletion where
  sessionId := job.sessionId
  epoch := job.epoch
  jobId := job.jobId
  payload := endPayload checkpoint

/-- Fulfil the job that delegated the session, if there is one. In memory the
parent must exist. -/
def fulfil (store : Store) : Store :=
  match store.delegations.lookup checkpoint.sessionId with
  | none => store
  | some job =>
    match backend, (store.cell job.sessionId).record with
    | .memory, none => store
    | _, _ => store.applyAndWake backend (childCompletion checkpoint job)

/-- Queue the notice of a detached child, once. -/
def notify (store : Store) : Store :=
  match store.completionNotices.lookup checkpoint.sessionId with
  | none => store
  | some (parent, callId) =>
    if store.noticesFired.contains checkpoint.sessionId then store
    else
      { store with
        noticesFired := store.noticesFired ++ [checkpoint.sessionId]
        noticeOutbox := store.noticeOutbox ++
          [{ parent := parent
             child := checkpoint.sessionId
             callId := callId
             payload := endPayload checkpoint }] }

/-- End a session. -/
def markCompleted (fence : Nat) (store : Store) : Outcome Unit :=
  store.checkFence checkpoint.sessionId fence fun record =>
    let cell := (store.cell checkpoint.sessionId).complete checkpoint record
    (.ok (),
      ((store.setCell checkpoint.sessionId cell).fulfil backend checkpoint).notify checkpoint)

/-- The error for a seal that names another turn. -/
def sealMismatch (segment turn : Nat) : StoreError :=
  .common ("commit_turn: seal segment " ++ toString segment ++ " != in-flight turn " ++
    toString turn ++ " (incarnation bug)")

/-- Whether a seal names another turn than the one in flight. -/
def sealsOther (turn : Nat) (turnSeal : Option TurnSeal) : Option StoreError :=
  match turnSeal with
  | some sealed => if sealed.segment ≠ turn then some (sealMismatch sealed.segment turn) else none
  | none => none

/-- Store the root of a turn's segment. -/
def putRoot (turnSeal : Option TurnSeal) (store : Store) : Store :=
  match turnSeal with
  | none => store
  | some sealed =>
    { store with
      journalRoots :=
        Function.update store.journalRoots (id, sealed.segment)
          (some ⟨sealed.root, sealed.signature⟩) }

/-- Queue a wake if work is left. -/
def wakeIfReady (status : SessionStatus) (store : Store) : Store :=
  if status = .ready then { store with wakeOutbox := store.wakeOutbox ++ [id] } else store

/-- End a turn: the session is idle if no work is left and ready otherwise. -/
def commitTurn (turnSeal : Option TurnSeal) (fence : Nat) (store : Store) : Outcome TurnCommit :=
  store.checkFence checkpoint.sessionId fence fun record =>
    match sealsOther record.turnSeq turnSeal with
    | some error => (.error error, store)
    | none =>
      store.takeFault .beforeSnapshot fun store =>
        let cell := store.cell checkpoint.sessionId
        let status := (cell.fold checkpoint record.turnSeq).turnStatus
        (.ok { turnSeq := record.turnSeq, status := status },
          ((store.setCell checkpoint.sessionId (cell.commitTurn checkpoint record)).putRoot
            checkpoint.sessionId turnSeal).wakeIfReady checkpoint.sessionId status)

/-- Record the completion of a job of an existing session and queue a wake. -/
def recordCompletionAndWake (completion : JobCompletion) (store : Store) : Outcome Unit :=
  store.withRecord completion.sessionId fun _ =>
    match (store.cell completion.sessionId).applyCompletion backend completion with
    | (false, _) => (.ok (), store)
    | (true, cell) =>
      (store.setCell completion.sessionId cell).takeFault .beforeWakePublish fun store =>
        (.ok (), { store with wakeOutbox := store.wakeOutbox ++ [completion.sessionId] })

/-- File the approvals of a park: under the session that parks in memory, under
the session each one names, and without a decision, in SQLite. -/
def fileApprovals (approvals : List ParkedApproval) (store : Store) : Store :=
  match backend with
  | .memory => store.setCell id (approvals.foldl Cell.fileApproval (store.cell id))
  | .sqlite =>
    approvals.foldl
      (fun store approval =>
        store.setCell approval.sessionId
          ((store.cell approval.sessionId).fileApproval { approval with decision := none }))
      store

/-- Suspend a session on approvals. -/
def parkApproval (approvals : List ParkedApproval) (fence : Nat) (store : Store) : Outcome Unit :=
  store.checkFence checkpoint.sessionId fence fun record =>
    store.takeFault .beforeSnapshot fun store =>
      let cell := (store.cell checkpoint.sessionId).park backend checkpoint approvals record
      let committed :=
        (store.setCell checkpoint.sessionId cell).fileApprovals backend checkpoint.sessionId
          approvals
      match backend with
      | .memory => (.ok (), committed)
      | .sqlite => committed.takeFault .afterSnapshot fun store => (.ok (), store)

/-- Unicode white space. -/
def isWhitespace (char : Char) : Bool :=
  let code := char.toNat
  (9 ≤ code && code ≤ 13) || code = 32 || code = 133 || code = 160 || code = 5760 ||
    (8192 ≤ code && code ≤ 8202) || code = 8232 || code = 8233 || code = 8239 ||
    code = 8287 || code = 12288

/-- A text without the white space around it. -/
def trim (text : String) : String :=
  String.ofList (((text.toList.dropWhile isWhitespace).reverse.dropWhile isWhitespace).reverse)

/-- An operator's decision as the payload of a completion. -/
def approvalCompletionPayload (allow allowPermanent : Bool) (reason : Option String) : Blob :=
  match allow, allowPermanent, reason.map trim with
  | true, true, _ => utf8 "allow_permanent"
  | true, false, _ => utf8 "allow"
  | false, _, some reason => if reason.isEmpty then utf8 "deny" else utf8 ("deny:" ++ reason)
  | false, _, none => utf8 "deny"

/-- The completion that an operator's answer records. -/
def answerCompletion (session : SessionId) (job : JobId) (epoch : Nat)
    (allow allowPermanent : Bool) (reason : Option String) : JobCompletion where
  sessionId := session
  epoch := epoch
  jobId := job
  payload := approvalCompletionPayload allow allowPermanent reason

/-- Answer a parked approval, once. -/
def answerApproval (session : SessionId) (job : JobId) (allow allowPermanent : Bool)
    (reason : Option String) (store : Store) : Outcome Bool :=
  let cell := store.cell session
  match cell.pendingApprovals.find? fun row => row.jobId = job with
  | none => (.ok false, store)
  | some row =>
    match row.decision with
    | some _ => (.ok true, store)
    | none =>
      (.ok true,
        (store.setCell session (cell.decideApproval job allow)).applyAndWake backend
          (answerCompletion session job row.epoch allow allowPermanent reason))

def bindDelegation (child : SessionId) (job : JobCommand) (store : Store) : Store :=
  (store.indexChild backend false job.sessionId child).putDelegation backend child job

def bindCompletionNotice (child parent : SessionId) (callId : Option String) (store : Store) :
    Store :=
  (store.indexChild backend true parent child).putNotice child parent callId

def recordChildEdge (parent child : SessionId) (label : String) (store : Store) : Store :=
  (store.indexChild backend false parent child).putBackground backend child parent label

/-- Queue a job that no session waits for, under a child name of its own. -/
def enqueueDetachedJob (job : JobCommand) (store : Store) : Outcome SessionId :=
  let seq := store.detachedSeq job.sessionId + 1
  let child := job.sessionId ++ "/d" ++ toString seq
  (.ok child,
    { store with
      detachedSeq := Function.update store.detachedSeq job.sessionId seq
      jobOutbox := store.jobOutbox ++ [{ job with child := some child }] })

def enqueueWake (store : Store) : Store :=
  { store with wakeOutbox := store.wakeOutbox ++ [id] }

def dequeueCompletionNotice (store : Store) : Outcome (Option CompletionNotice) :=
  (.ok store.noticeOutbox.head?, { store with noticeOutbox := store.noticeOutbox.tail })

def dequeueJob (store : Store) : Outcome (Option JobCommand) :=
  (.ok store.jobOutbox.head?, { store with jobOutbox := store.jobOutbox.tail })

def dequeueWake (store : Store) : Outcome (Option SessionId) :=
  (.ok store.wakeOutbox.head?, { store with wakeOutbox := store.wakeOutbox.tail })

/-- Replace the snapshot of a session that is not active and still has the
expected one. -/
def swapSnapshotIfDormant (expected new : Blob) (store : Store) : Outcome Bool :=
  store.withRecord id fun record =>
    if record.status = .active ∨ record.snapshot ≠ expected then (.ok false, store)
    else
      (.ok true,
        store.setCell id { store.cell id with record := some { record with snapshot := new } })

def setFault (fault : Option FaultPoint) (store : Store) : Store :=
  { store with fault := fault }

/-- Whether the recovery scan of a partition takes up a session. -/
def isResumable (partition : Nat) (cell : Cell) : Bool :=
  match cell.record with
  | none => false
  | some record =>
    record.partition = partition &&
      match record.status with
      | .ready => true
      | .active => true
      | .suspended _ => !cell.unapplied.isEmpty
      | .completed => false
      | .idle => false

/-- The sessions of a partition to be activated again. -/
def scanResumable (partition : Nat) (store : Store) : List SessionId :=
  store.sessions.filter fun id => isResumable partition (store.cell id)

/-- The children of a session: by the index in memory; by the edges, delegations
first and notices in the order of their names, in SQLite. -/
def childrenOf (parent : SessionId) (store : Store) : List SessionId :=
  match backend with
  | .memory => store.childIndex parent
  | .sqlite =>
    ((store.delegations.filter fun row => row.2.sessionId = parent).map Prod.fst) ++
      ((store.backgroundEdges.filter fun row => row.2.1 = parent).map Prod.fst) ++
      ((store.completionNotices.filter fun row => row.2.1 = parent).map Prod.fst).mergeSort

/-- What a child was asked to do; `text` decodes bytes to a text. -/
def delegationWork (text : Blob → String) (child : SessionId) (store : Store) : Option String :=
  ((store.delegations.lookup child).map fun job => text job.payload).or
    ((store.backgroundEdges.lookup child).map Prod.snd)

end Store

/-- The operations. -/
inductive Op
  | createSession (id : SessionId) (partition : Nat) (snapshot : Blob)
  | createIdle (id : SessionId) (partition : Nat) (snapshot : Blob)
  | createRunnable (spec : RunnableSession) (now : Nat)
  | reopenIfSettled (id : SessionId)
  | markReadyIfIdle (id : SessionId)
  | appendSplice (splice : NewSplice) (now : Nat)
  | claimSplices (id : SessionId) (fence : Nat)
  | pruneConsumedSplices (cutoff : Nat)
  | acquireActivationLease (id : SessionId)
  | loadForActivation (id : SessionId) (fence : Nat)
  | checkpointAndEnqueue (checkpoint : Checkpoint) (job : JobCommand) (fence : Nat)
  | markCompleted (checkpoint : Checkpoint) (fence : Nat)
  | commitTurn (checkpoint : Checkpoint) (turnSeal : Option TurnSeal) (fence : Nat)
  | recordCompletionAndWake (completion : JobCompletion)
  | parkApproval (checkpoint : Checkpoint) (approvals : List ParkedApproval) (fence : Nat)
  | answerApproval (session : SessionId) (job : JobId) (allow allowPermanent : Bool)
      (reason : Option String)
  | bindDelegation (child : SessionId) (job : JobCommand)
  | bindCompletionNotice (child parent : SessionId) (callId : Option String)
  | recordChildEdge (parent child : SessionId) (label : String)
  | enqueueDetachedJob (job : JobCommand)
  | enqueueWake (id : SessionId)
  | dequeueCompletionNotice
  | dequeueJob
  | dequeueWake
  | swapSnapshotIfDormant (id : SessionId) (expected new : Blob)
  | setFault (fault : Option FaultPoint)

/-- What an operation answers when it succeeds. -/
inductive Answer
  | done
  | flag (value : Bool)
  | number (value : Nat)
  | child (id : SessionId)
  | splices (rows : List InboxSplice)
  | activation (activation : Activation)
  | turn (commit : TurnCommit)
  | notice (notice : Option CompletionNotice)
  | job (job : Option JobCommand)
  | wake (id : Option SessionId)
  deriving DecidableEq, Repr

/-- What an operation answers. -/
abbrev Reply := Except StoreError Answer

def Outcome.reply {α : Type} (answer : α → Answer) (outcome : Outcome α) : Reply × Store :=
  (outcome.1.map answer, outcome.2)

/-- Run an operation. -/
def serve (backend : Backend) (store : Store) : Op → Reply × Store
  | .createSession id partition snapshot =>
    (store.createSession id partition snapshot).reply fun _ => .done
  | .createIdle id partition snapshot =>
    (store.createIdle id partition snapshot).reply fun _ => .done
  | .createRunnable spec now => (store.createRunnable backend spec now).reply .flag
  | .reopenIfSettled id => (store.reopenIfSettled id).reply .flag
  | .markReadyIfIdle id => (store.markReadyIfIdle id).reply .flag
  | .appendSplice splice now => (store.appendSplice splice now).reply .number
  | .claimSplices id fence => (store.claimSplices id fence).reply .splices
  | .pruneConsumedSplices cutoff => (store.pruneConsumedSplices cutoff).reply .number
  | .acquireActivationLease id => (store.acquireActivationLease id).reply .number
  | .loadForActivation id fence => (store.loadForActivation id fence).reply .activation
  | .checkpointAndEnqueue checkpoint job fence =>
    (store.checkpointAndEnqueue backend checkpoint job fence).reply fun _ => .done
  | .markCompleted checkpoint fence =>
    (store.markCompleted backend checkpoint fence).reply fun _ => .done
  | .commitTurn checkpoint turnSeal fence =>
    (store.commitTurn checkpoint turnSeal fence).reply .turn
  | .recordCompletionAndWake completion =>
    (store.recordCompletionAndWake backend completion).reply fun _ => .done
  | .parkApproval checkpoint approvals fence =>
    (store.parkApproval backend checkpoint approvals fence).reply fun _ => .done
  | .answerApproval session job allow allowPermanent reason =>
    (store.answerApproval backend session job allow allowPermanent reason).reply .flag
  | .bindDelegation child job => (.ok .done, store.bindDelegation backend child job)
  | .bindCompletionNotice child parent callId =>
    (.ok .done, store.bindCompletionNotice backend child parent callId)
  | .recordChildEdge parent child label =>
    (.ok .done, store.recordChildEdge backend parent child label)
  | .enqueueDetachedJob job => (store.enqueueDetachedJob job).reply .child
  | .enqueueWake id => (.ok .done, store.enqueueWake id)
  | .dequeueCompletionNotice => store.dequeueCompletionNotice.reply .notice
  | .dequeueJob => store.dequeueJob.reply .job
  | .dequeueWake => store.dequeueWake.reply .wake
  | .swapSnapshotIfDormant id expected new =>
    (store.swapSnapshotIfDormant id expected new).reply .flag
  | .setFault fault => (.ok .done, store.setFault fault)

/-- The store as a machine that answers every operation. -/
def machine (backend : Backend) : Machine.StepFunction Store Op Reply :=
  fun store op =>
    let (reply, after) := serve backend store op
    some (after, [reply])

/-- The record of one operation in a run. -/
abbrev Recorded := Machine.Step Store Op Reply

end DaemonNode.SessionStore
