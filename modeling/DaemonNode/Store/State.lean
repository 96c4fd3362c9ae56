import DaemonNode.Lib.Inbox
import DaemonNode.Proto.Bytes

/-!
# The session store: records and tables

A session is a durable record: the last snapshot, a status, the newest fence
granted and the number of committed turns. Beside it the store keeps the inbox
of splices, the completions that await it and the approvals it is parked on;
these are gathered here in one cell per session. The outboxes and the edges of
the session tree belong to the store as a whole.

Two backends implement the store. The in-memory one keeps hash maps under one
lock, the SQLite one keeps tables and runs each operation as a transaction. One
state serves both: a table that only one of them has stays empty in the other.
-/

namespace DaemonNode.SessionStore

abbrev SessionId := String

abbrev JobId := String

/-- The key of a journal; a session's journal has the session's own name. -/
abbrev JournalStreamId := String

/-- Bytes that the store keeps and never reads. -/
abbrev Blob := List Byte

/-- The two implementations of the store. -/
inductive Backend
  | memory
  | sqlite
  deriving DecidableEq, Repr

inductive SessionStatus
  | active
  | suspended (job : JobId)
  | ready
  | completed
  | idle
  deriving DecidableEq, Repr

/-- How a session ends its turns, fixed at creation. -/
inductive ExecutionPolicy
  | interactiveRoot
  | joiningChild
  | detachedChild
  | backgroundChild
  | cronRun
  deriving DecidableEq, Repr

/-- One session row. -/
structure SessionRecord where
  (partition epoch : Nat)
  status : SessionStatus
  snapshot : Blob
  (fence turnSeq : Nat)
  deriving DecidableEq, Repr

/-- The intent of an input. -/
inductive SpliceKind
  | startTurn
  | steer
  | observe
  deriving DecidableEq, Repr

/-- A splice apart from its number and its claim. -/
structure SpliceBody where
  kind : SpliceKind
  payload : Blob
  (originOp origin : String)
  receivedAtMs : Nat
  deriving DecidableEq, Repr

/-- One durable input of a session. -/
abbrev InboxSplice := Inbox.Entry SpliceBody

/-- An input as its producer hands it in. -/
structure NewSplice where
  sessionId : SessionId
  kind : SpliceKind
  payload : Blob
  (originOp origin : String)

inductive ChildLifetime
  | persistent
  | ephemeral
  deriving DecidableEq, Repr

/-- Work that a session delegates. -/
structure JobCommand where
  jobId : JobId
  sessionId : SessionId
  epoch : Nat
  payload : Blob
  lifetime : ChildLifetime
  child : Option SessionId
  deriving DecidableEq, Repr

/-- The result of a job, named by session, epoch and job. -/
structure JobCompletion where
  sessionId : SessionId
  epoch : Nat
  jobId : JobId
  payload : Blob
  deriving DecidableEq, Repr

/-- The key under which a completion is recorded for its session. -/
def JobCompletion.key (completion : JobCompletion) : Nat × JobId :=
  (completion.epoch, completion.jobId)

/-- What the parent of a detached child is told when the child ends. -/
structure CompletionNotice where
  (parent child : SessionId)
  callId : Option String
  payload : Blob
  deriving DecidableEq, Repr

/-- A request that waits for an operator's decision. -/
structure ParkedApproval where
  sessionId : SessionId
  jobId : JobId
  epoch : Nat
  prompt : String
  (path fingerprint : Option String)
  decision : Option Bool
  deriving DecidableEq, Repr

/-- What an activation commits. -/
structure Checkpoint where
  sessionId : SessionId
  epoch : Nat
  snapshot : Blob
  completionPayload : Option Blob
  consumedSplices : Option Nat
  appliedCompletions : List (Nat × JobId)

/-- The root of a turn's journal segment, to be stored with the turn. -/
structure TurnSeal where
  segment : Nat
  root : Root
  signature : Blob

/-- The stored root of a journal segment. -/
structure CommittedRoot where
  root : Root
  signature : Blob

/-- What an activation loads. -/
structure Activation where
  snapshot : Blob
  unapplied : List JobCompletion
  fence : Nat
  splices : List InboxSplice
  policy : Option ExecutionPolicy
  turnSeq : Nat
  deriving DecidableEq, Repr

structure TurnCommit where
  turnSeq : Nat
  status : SessionStatus
  deriving DecidableEq, Repr

/-- The tree edge a child is created with. -/
inductive RunnableEdge
  | delegation (job : JobCommand)
  | completionNotice (parent : SessionId) (callId : Option String)
  | childEdge (parent : SessionId) (workLabel : String)

/-- A session to be created together with its edge and its first input. -/
structure RunnableSession where
  id : SessionId
  partition : Nat
  snapshot : Blob
  policy : ExecutionPolicy
  edge : Option RunnableEdge
  firstInput : Option Blob

/-- The boundaries at which a test can make the store fail. -/
inductive FaultPoint
  | beforeSnapshot
  | afterSnapshot
  | afterJobOutbox
  | beforeWakePublish
  | midRunnableConstruction
  deriving DecidableEq, Repr

inductive StoreError
  | fenced (presented current : Nat)
  | notFound (id : SessionId)
  | alreadyExists (id : SessionId)
  | fault (point : FaultPoint)
  | common (text : String)
  deriving DecidableEq, Repr

/-- Everything the store keeps about one session. -/
structure Cell where
  record : Option SessionRecord
  policy : Option ExecutionPolicy
  spliceSeq : Nat
  splices : List InboxSplice
  /-- The completions ever recorded; kept by the in-memory backend only. -/
  inboxKeys : List (Nat × JobId)
  unapplied : List JobCompletion
  pendingApprovals : List ParkedApproval

/-- A session the store has not heard of. -/
def Cell.empty : Cell := ⟨none, none, 0, [], [], [], []⟩

structure Store where
  /-- The sessions with a record, in the order of their creation. -/
  sessions : List SessionId
  cell : SessionId → Cell
  jobOutbox : List JobCommand
  enqueuedJobs : List JobId
  wakeOutbox : List SessionId
  delegations : List (SessionId × JobCommand)
  completionNotices : List (SessionId × SessionId × Option String)
  noticesFired : List SessionId
  noticeOutbox : List CompletionNotice
  detachedSeq : SessionId → Nat
  backgroundEdges : List (SessionId × SessionId × String)
  /-- The children of each session; kept by the in-memory backend only. -/
  childIndex : SessionId → List SessionId
  journalRoots : JournalStreamId × Nat → Option CommittedRoot
  fault : Option FaultPoint

/-- The store before any operation. -/
def Store.empty : Store where
  sessions := []
  cell := fun _ => .empty
  jobOutbox := []
  enqueuedJobs := []
  wakeOutbox := []
  delegations := []
  completionNotices := []
  noticesFired := []
  noticeOutbox := []
  detachedSeq := fun _ => 0
  backgroundEdges := []
  childIndex := fun _ => []
  journalRoots := fun _ => none
  fault := none

def Store.setCell (store : Store) (id : SessionId) (cell : Cell) : Store :=
  { store with cell := Function.update store.cell id cell }

/-- The status of a session, if it exists. -/
def Store.status (store : Store) (id : SessionId) : Option SessionStatus :=
  (store.cell id).record.map SessionRecord.status

@[simp] theorem Store.setCell_cell_self (store : Store) (id : SessionId) (cell : Cell) :
    (store.setCell id cell).cell id = cell := by
  simp [setCell]

theorem Store.setCell_cell_of_ne (store : Store) {id session : SessionId} (cell : Cell)
    (other : session ≠ id) :
    (store.setCell id cell).cell session = store.cell session := by
  simp [setCell, other]

@[simp] theorem Store.setCell_setCell (store : Store) (id : SessionId) (first second : Cell) :
    (store.setCell id first).setCell id second = store.setCell id second := by
  simp [setCell]

namespace Cell

variable (backend : Backend) (checkpoint : Checkpoint) (cell : Cell)

/-- Whether work is left for the session: a splice that is not consumed or a
completion that is not applied. -/
def hasWork : Bool :=
  !(Inbox.waiting cell.splices).isEmpty || !cell.unapplied.isEmpty

/-- Number a splice and put it at the end of the inbox. -/
def pushSplice (body : SpliceBody) : Cell :=
  { cell with
    spliceSeq := cell.spliceSeq + 1
    splices := cell.splices ++ [⟨cell.spliceSeq + 1, body, .pending⟩] }

/-- A cell that gets its record, with a first input if there is one. -/
def opened (record : SessionRecord) (policy : Option ExecutionPolicy)
    (input : Option SpliceBody) (cell : Cell) : Cell :=
  match input with
  | none => { cell with record := some record, policy := policy }
  | some body => { cell with record := some record, policy := policy }.pushSplice body

/-- Give the record a new status. -/
def setStatus (status : SessionStatus) : Cell :=
  { cell with record := cell.record.map fun record => { record with status := status } }

/-- Durable input makes an idle session ready. -/
def readyIfIdle : Cell :=
  match cell.record.map SessionRecord.status with
  | some .idle => cell.setStatus .ready
  | _ => cell

/-- Claim for a fence what is pending or held by an older fence. -/
def claimSplices (fence : Nat) (cell : Cell) : Cell :=
  { cell with splices := cell.splices.map (Inbox.Entry.take fence) }

/-- Whether a completion was not recorded before. The in-memory backend asks the
set of all keys ever recorded, the SQLite backend the rows still there. -/
def isFresh (completion : JobCompletion) (cell : Cell) : Bool :=
  match backend with
  | .memory => !cell.inboxKeys.contains completion.key
  | .sqlite => !(cell.unapplied.map JobCompletion.key).contains completion.key

/-- Record a completion unless it was recorded before; the session, if it exists,
becomes ready. Also returns whether the completion was fresh. -/
def applyCompletion (completion : JobCompletion) (cell : Cell) : Bool × Cell :=
  if cell.isFresh backend completion then
    (true,
      { cell.setStatus .ready with
        inboxKeys :=
          match backend with
          | .memory => cell.inboxKeys ++ [completion.key]
          | .sqlite => cell.inboxKeys
        unapplied := cell.unapplied ++ [completion] })
  else (false, cell)

/-! Each commit is given the record it was checked against. -/

def suspend (job : JobId) (record : SessionRecord) (cell : Cell) : Cell :=
  { cell with
    record := some
      { record with
        snapshot := checkpoint.snapshot
        epoch := checkpoint.epoch
        status := .suspended job }
    splices := Inbox.consumeUpTo checkpoint.consumedSplices record.turnSeq cell.splices }

/-- End the session with its turn. -/
def complete (record : SessionRecord) (cell : Cell) : Cell :=
  { cell with
    record := some
      { record with
        snapshot := checkpoint.snapshot
        epoch := checkpoint.epoch
        status := .completed
        turnSeq := record.turnSeq + 1 }
    splices := Inbox.consumeUpTo checkpoint.consumedSplices record.turnSeq cell.splices }

/-- Consume what a turn has folded; only here are completions removed. -/
def fold (stamp : Nat) (cell : Cell) : Cell :=
  { cell with
    splices := Inbox.consumeUpTo checkpoint.consumedSplices stamp cell.splices
    unapplied := cell.unapplied.filter fun completion =>
      !checkpoint.appliedCompletions.contains completion.key }

def turnStatus : SessionStatus :=
  if cell.hasWork then .ready else .idle

/-- End a turn. -/
def commitTurn (record : SessionRecord) (cell : Cell) : Cell :=
  { cell.fold checkpoint record.turnSeq with
    record := some
      { record with
        snapshot := checkpoint.snapshot
        epoch := checkpoint.epoch
        status := (cell.fold checkpoint record.turnSeq).turnStatus
        turnSeq := record.turnSeq + 1 } }

/-- The record after a park. A park without approvals still writes the snapshot
in memory, and leaves the row alone in SQLite. -/
def parkedRecord (approvals : List ParkedApproval) (record : SessionRecord) : SessionRecord :=
  match approvals.head?, backend with
  | some first, _ =>
    { record with
      snapshot := checkpoint.snapshot
      epoch := checkpoint.epoch
      status := .suspended first.jobId }
  | none, .memory =>
    { record with snapshot := checkpoint.snapshot, epoch := checkpoint.epoch }
  | none, .sqlite => record

/-- Write the record of a park and consume its splices. -/
def park (approvals : List ParkedApproval) (record : SessionRecord) (cell : Cell) : Cell :=
  { cell with
    record := some (parkedRecord backend checkpoint approvals record)
    splices := Inbox.consumeUpTo checkpoint.consumedSplices record.turnSeq cell.splices }

/-- File an approval, unless its job has one already. -/
def fileApproval (approval : ParkedApproval) : Cell :=
  if cell.pendingApprovals.any fun row => row.jobId = approval.jobId then cell
  else { cell with pendingApprovals := cell.pendingApprovals ++ [approval] }

/-- Stamp the decision on a job's approval; a job has at most one. -/
def decideApproval (job : JobId) (allow : Bool) (cell : Cell) : Cell :=
  { cell with
    pendingApprovals := cell.pendingApprovals.map fun row =>
      if row.jobId = job then { row with decision := some allow } else row }

end Cell

end DaemonNode.SessionStore
