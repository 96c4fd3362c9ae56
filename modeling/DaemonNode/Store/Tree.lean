import DaemonNode.Store.Operations

/-!
# The session tree in the two backends

An edge of the session tree belongs to one of three families: a delegation, which
the child's end fulfils; a background edge, for the record only; and a notice
edge, by which the parent is told. The in-memory backend keeps one index of
children for all families and a map for each; SQLite keeps three tables and lists
the children from them.

The two disagree about an edge that is bound again, about the order of children
from different families, and about a parent without a record. Where none of these
occurs (`Store.InOrder`) every step keeps the two stores in agreement.
-/

namespace DaemonNode.SessionStore

section Tables

variable {α : Type} {rows : List (SessionId × α)}

theorem lookup_filter_of_ne (different : other ≠ key) :
    (rows.filter fun row => row.1 != key).lookup other = rows.lookup other := by
  induction rows with
  | nil => rfl
  | cons row rows ih =>
    rw [List.filter_cons, List.lookup_cons]
    by_cases keyed : row.1 = key
    · rw [keyed, bne_self_eq_false, if_neg Bool.false_ne_true, ih, beq_false_of_ne different]
    · rw [if_pos (bne_iff_ne.mpr keyed), List.lookup_cons, ih]

theorem lookup_insertOrReplace (other : SessionId) :
    (insertOrReplace key value rows).lookup other =
      if other = key then some value else rows.lookup other := by
  by_cases same : other = key
  · rw [insertOrReplace, same, List.lookup_cons_self, if_pos rfl]
  · rw [insertOrReplace, List.lookup_cons, beq_false_of_ne same, if_neg same]
    exact lookup_filter_of_ne same

theorem lookup_insertOrReplace_of_same (present : rows.lookup key = some value)
    (other : SessionId) :
    (insertOrReplace key value rows).lookup other = rows.lookup other := by
  rw [lookup_insertOrReplace]
  split
  · next same => rw [same, present]
  · rfl

theorem insertOrIgnore_of_present (present : rows.lookup key = some old) :
    insertOrIgnore key value rows = rows := by
  rw [insertOrIgnore, present]
  rfl

theorem insertOrIgnore_of_absent (absent : rows.lookup key = none) :
    insertOrIgnore key value rows = rows ++ [(key, value)] := by
  rw [insertOrIgnore, absent]
  rfl

theorem lookup_insertOrIgnore_of_absent (absent : rows.lookup key = none) (other : SessionId) :
    (insertOrIgnore key value rows).lookup other =
      if other = key then some value else rows.lookup other := by
  rw [insertOrIgnore_of_absent absent, List.lookup_append]
  by_cases same : other = key
  · rw [same, absent, if_pos rfl, List.lookup_cons_self]
    rfl
  · rw [if_neg same, List.lookup_cons, beq_false_of_ne same, List.lookup_nil, Option.or_none]

/-- For a new key the two rules of insertion read alike. -/
theorem lookup_replace_eq_ignore (alike : ∀ other, rows.lookup other = others.lookup other)
    (absent : others.lookup key = none) (other : SessionId) :
    (insertOrReplace key value rows).lookup other =
      (insertOrIgnore key value others).lookup other := by
  rw [lookup_insertOrReplace, lookup_insertOrIgnore_of_absent absent, alike]

/-- The children that the rows of a table give a parent, in their order. -/
def childrenIn (parentOf : α → SessionId) (parent : SessionId) (rows : List (SessionId × α)) :
    List SessionId :=
  (rows.filter fun row => parentOf row.2 = parent).map Prod.fst

/-- A new row puts its child behind its siblings. -/
theorem childrenIn_insertOrIgnore (absent : rows.lookup key = none) (parentOf : α → SessionId)
    (parent : SessionId) :
    childrenIn parentOf parent (insertOrIgnore key value rows) =
      if parent = parentOf value then childrenIn parentOf parent rows ++ [key]
      else childrenIn parentOf parent rows := by
  rw [insertOrIgnore_of_absent absent, childrenIn, List.filter_append, List.map_append,
    List.filter_singleton]
  by_cases same : parent = parentOf value
  · simp [same, childrenIn]
  · simp [same, Ne.symm same, childrenIn]

theorem mem_childrenIn (parentOf : α → SessionId) (present : rows.lookup key = some value) :
    key ∈ childrenIn parentOf (parentOf value) rows := by
  obtain ⟨_, _, rfl, _⟩ := List.lookup_eq_some_iff.mp present
  simp [childrenIn]

end Tables

def RunnableEdge.parent : RunnableEdge → SessionId
  | .delegation job => job.sessionId
  | .completionNotice parent _ => parent
  | .childEdge parent _ => parent

namespace Store

def putRow (backend : Backend) (child : SessionId) (edge : RunnableEdge) (store : Store) :
    Store :=
  match edge with
  | .delegation job => store.putDelegation backend child job
  | .completionNotice parent callId => store.putNotice child parent callId
  | .childEdge parent label => store.putBackground backend child parent label

/-- Bind a child by an edge; `once` says whether the index of children is asked
first whether the child is there. -/
def attach (backend : Backend) (once : Bool) (child : SessionId) (edge : RunnableEdge)
    (store : Store) : Store :=
  (store.indexChild backend once edge.parent child).putRow backend child edge

theorem putEdge_some (backend : Backend) (child : SessionId) (edge : RunnableEdge) (store : Store) :
    store.putEdge backend child (some edge) = store.attach backend true child edge := by
  cases edge <;> rfl

/-- The delegated children of a session, in the order of the rows. -/
def delegated (parent : SessionId) (store : Store) : List SessionId :=
  childrenIn JobCommand.sessionId parent store.delegations

/-- The background children of a session, in the order of the rows. -/
def background (parent : SessionId) (store : Store) : List SessionId :=
  childrenIn Prod.fst parent store.backgroundEdges

/-- The detached children of a session, in the order of the rows. -/
def detached (parent : SessionId) (store : Store) : List SessionId :=
  childrenIn Prod.fst parent store.completionNotices

theorem childrenOf_sqlite (parent : SessionId) (store : Store) :
    store.childrenOf .sqlite parent =
      store.delegated parent ++ store.background parent ++ (store.detached parent).mergeSort :=
  rfl

def Repeats (child : SessionId) (store : Store) : RunnableEdge → Prop
  | .delegation job => store.delegations.lookup child = some job
  | .completionNotice parent _ => (store.completionNotices.lookup child).map Prod.fst = some parent
  | .childEdge parent label => store.backgroundEdges.lookup child = some (parent, label)

/-- The child has no edge of this family, and the parent's children in SQLite's
order end before it. -/
def Follows (child : SessionId) (store : Store) : RunnableEdge → Prop
  | .delegation job =>
    store.delegations.lookup child = none ∧
      store.background job.sessionId = [] ∧ store.detached job.sessionId = []
  | .childEdge parent _ => store.backgroundEdges.lookup child = none ∧ store.detached parent = []
  | .completionNotice parent _ =>
    store.completionNotices.lookup child = none ∧ ∀ sibling ∈ store.detached parent, sibling ≤ child

instance (child : SessionId) (store : Store) :
    (edge : RunnableEdge) → Decidable (store.Repeats child edge)
  | .delegation job => inferInstanceAs (Decidable (store.delegations.lookup child = some job))
  | .completionNotice parent _ =>
    inferInstanceAs (Decidable ((store.completionNotices.lookup child).map Prod.fst = some parent))
  | .childEdge parent label =>
    inferInstanceAs (Decidable (store.backgroundEdges.lookup child = some (parent, label)))

instance (child : SessionId) (store : Store) :
    (edge : RunnableEdge) → Decidable (store.Follows child edge)
  | .delegation job =>
    inferInstanceAs (Decidable (store.delegations.lookup child = none ∧
      store.background job.sessionId = [] ∧ store.detached job.sessionId = []))
  | .childEdge parent _ =>
    inferInstanceAs (Decidable (store.backgroundEdges.lookup child = none ∧
      store.detached parent = []))
  | .completionNotice parent _ =>
    inferInstanceAs (Decidable (store.completionNotices.lookup child = none ∧
      ∀ sibling ∈ store.detached parent, sibling ≤ child))

/-- An edge that both backends take alike: one that comes last among the parent's
children, or one that is there and is bound by an operation that looks first. -/
def Fits (once : Bool) (child : SessionId) (edge : RunnableEdge) (store : Store) : Prop :=
  store.Follows child edge ∧ (once = true → child ∉ store.childrenOf .sqlite edge.parent) ∨
    once = true ∧ store.Repeats child edge

instance (once : Bool) (child : SessionId) (edge : RunnableEdge) (store : Store) :
    Decidable (store.Fits once child edge) :=
  inferInstanceAs (Decidable (_ ∨ _))

/-- An operation on the tree that the two backends take alike: its edge fits, and
a delegated child ends only while its parent exists. -/
def InOrder (store : Store) : Op → Prop
  | .createRunnable spec _ =>
    (store.cell spec.id).record = none → ∀ edge ∈ spec.edge, store.Fits true spec.id edge
  | .bindDelegation child job => store.Fits false child (.delegation job)
  | .bindCompletionNotice child parent callId =>
    store.Fits true child (.completionNotice parent callId)
  | .recordChildEdge parent child label => store.Fits false child (.childEdge parent label)
  | .markCompleted checkpoint _ =>
    (store.cell checkpoint.sessionId).record.isSome →
      ∀ job ∈ store.delegations.lookup checkpoint.sessionId,
        (store.cell job.sessionId).record.isSome
  | _ => True

instance (store : Store) (op : Op) : Decidable (store.InOrder op) := by
  unfold InOrder
  split <;> infer_instance

section Binding

variable {store : Store}

theorem indexChild_of_new (new : once = true → child ∉ store.childIndex parent) :
    store.indexChild .memory once parent child =
      { store with
        childIndex :=
          Function.update store.childIndex parent (store.childIndex parent ++ [child]) } := by
  rw [indexChild, if_neg]
  rw [Bool.and_eq_true, List.contains_iff_mem]
  exact fun ⟨looks, present⟩ => new looks present

theorem putRow_childIndex (backend : Backend) (child : SessionId) (edge : RunnableEdge)
    (store : Store) :
    (store.putRow backend child edge).childIndex = store.childIndex := by
  cases edge <;> rfl

theorem mergeSort_eq_self {names : List SessionId} (sorted : names.Pairwise (· ≤ ·)) :
    names.mergeSort = names :=
  List.mergeSort_of_pairwise (sorted.imp decide_eq_true)

/-- The detached children stay in the order of their names. -/
theorem sorted_attach (follows : store.Follows child edge)
    (sorted : ∀ parent, (store.detached parent).Pairwise (· ≤ ·)) (parent : SessionId) :
    ((store.attach .sqlite once child edge).detached parent).Pairwise (· ≤ ·) := by
  cases edge with
  | delegation | childEdge => exact sorted parent
  | completionNotice bound callId =>
    obtain ⟨absent, last⟩ := follows
    change (childrenIn Prod.fst parent
      (insertOrIgnore child (bound, callId) store.completionNotices)).Pairwise _
    rw [childrenIn_insertOrIgnore absent]
    by_cases same : parent = bound
    · rw [if_pos same]
      refine List.pairwise_append.mpr ⟨sorted parent, List.pairwise_singleton _ _, ?_⟩
      intro sibling member final finalMember
      rw [List.mem_singleton.mp finalMember]
      exact last sibling (same ▸ member)
    · rw [if_neg same]
      exact sorted parent

/-- An edge that follows its siblings puts the child at the end of SQLite's list. -/
theorem childrenOf_attach_of_follows (follows : store.Follows child edge)
    (sorted : ∀ parent, (store.detached parent).Pairwise (· ≤ ·)) (parent : SessionId) :
    (store.attach .sqlite once child edge).childrenOf .sqlite parent =
      if parent = edge.parent then store.childrenOf .sqlite parent ++ [child]
      else store.childrenOf .sqlite parent := by
  rw [childrenOf_sqlite, childrenOf_sqlite, mergeSort_eq_self (sorted parent),
    mergeSort_eq_self (sorted_attach follows sorted parent)]
  cases edge with
  | delegation job =>
    obtain ⟨absent, noBackground, noDetached⟩ := follows
    change childrenIn _ parent (insertOrIgnore child job store.delegations) ++ _ ++ _ = _
    rw [childrenIn_insertOrIgnore absent, RunnableEdge.parent]
    split_ifs with same
    · subst same
      change store.delegated _ ++ _ ++ store.background _ ++ store.detached _ = _
      rw [noBackground, noDetached]
      simp only [List.append_nil]
    · rfl
  | childEdge bound label =>
    obtain ⟨absent, noDetached⟩ := follows
    change _ ++ childrenIn _ parent (insertOrIgnore child _ store.backgroundEdges) ++ _ = _
    rw [childrenIn_insertOrIgnore absent, RunnableEdge.parent]
    split_ifs with same
    · subst same
      change store.delegated _ ++ (store.background _ ++ _) ++ store.detached _ = _
      rw [noDetached]
      simp only [List.append_nil, List.append_assoc]
    · rfl
  | completionNotice bound callId =>
    change _ ++ childrenIn _ parent (insertOrIgnore child _ store.completionNotices) = _
    rw [childrenIn_insertOrIgnore follows.1, RunnableEdge.parent]
    split_ifs
    · exact (List.append_assoc _ _ _).symm
    · rfl

/-- A child that has the edge is listed under its parent. -/
theorem mem_childrenOf_of_repeats (repeats : store.Repeats child edge) :
    child ∈ store.childrenOf .sqlite edge.parent := by
  rw [childrenOf_sqlite, List.mem_append, List.mem_append, List.mem_mergeSort]
  cases edge with
  | delegation job => exact .inl (.inl (mem_childrenIn JobCommand.sessionId repeats))
  | childEdge bound label => exact .inl (.inr (mem_childrenIn Prod.fst repeats))
  | completionNotice bound callId =>
    obtain ⟨⟨_, bindId⟩, present, rfl⟩ := Option.map_eq_some_iff.mp repeats
    exact .inr (mem_childrenIn Prod.fst present)

/-- SQLite ignores an edge that is there. -/
theorem attach_of_repeats (repeats : store.Repeats child edge) :
    store.attach .sqlite once child edge = store := by
  cases edge with
  | delegation job =>
    change { store with delegations := insertOrIgnore child job store.delegations } = store
    rw [insertOrIgnore_of_present repeats]
  | childEdge bound label =>
    change { store with
      backgroundEdges := insertOrIgnore child (bound, label) store.backgroundEdges } = store
    rw [insertOrIgnore_of_present repeats]
  | completionNotice bound callId =>
    obtain ⟨_, present, _⟩ := Option.map_eq_some_iff.mp repeats
    change { store with
      completionNotices := insertOrIgnore child (bound, callId) store.completionNotices } = store
    rw [insertOrIgnore_of_present present]

end Binding
end Store

/-- The cells of one session in the two backends. The in-memory set of recorded
keys holds what SQLite reads off the rows. -/
structure Cell.Alike (memory sqlite : Cell) : Prop where
  keys : memory.inboxKeys = memory.unapplied.map JobCompletion.key
  rest : sqlite = { memory with inboxKeys := [] }

namespace Cell.Alike

variable {memory sqlite : Cell}

section

variable (alike : Alike memory sqlite)

include alike

theorem record : sqlite.record = memory.record := by
  rw [alike.rest]

theorem unapplied : sqlite.unapplied = memory.unapplied := by
  rw [alike.rest]

theorem opened (record : SessionRecord) (policy : Option ExecutionPolicy)
    (input : Option SpliceBody) :
    Alike (memory.opened record policy input) (sqlite.opened record policy input) := by
  obtain ⟨keys, rfl⟩ := alike
  cases input <;> exact ⟨keys, rfl⟩

theorem complete (checkpoint : Checkpoint) (record : SessionRecord) :
    Alike (memory.complete checkpoint record) (sqlite.complete checkpoint record) := by
  obtain ⟨keys, rfl⟩ := alike
  exact ⟨keys, rfl⟩

/-- A completion is fresh in both backends or in neither. -/
theorem applyCompletion (completion : JobCompletion) :
    (memory.applyCompletion .memory completion).1 = (sqlite.applyCompletion .sqlite completion).1 ∧
      Alike (memory.applyCompletion .memory completion).2
        (sqlite.applyCompletion .sqlite completion).2 := by
  obtain ⟨keys, rfl⟩ := alike
  have fresh : ({ memory with inboxKeys := [] } : Cell).isFresh .sqlite completion =
      memory.isFresh .memory completion := by
    rw [isFresh, isFresh, keys]
  unfold Cell.applyCompletion
  rw [fresh]
  split
  · refine ⟨rfl, ?_, rfl⟩
    change memory.inboxKeys ++ [completion.key] = _
    rw [keys, List.map_append]
    rfl
  · exact ⟨rfl, keys, rfl⟩

end

end Cell.Alike

namespace Store

/-- The two backends after the same operations. -/
structure Agree (memory sqlite : Store) : Prop where
  cell : ∀ id, (memory.cell id).Alike (sqlite.cell id)
  wakes : memory.wakeOutbox = sqlite.wakeOutbox
  delegation : ∀ child, memory.delegations.lookup child = sqlite.delegations.lookup child
  background : ∀ child, memory.backgroundEdges.lookup child = sqlite.backgroundEdges.lookup child
  notices : memory.completionNotices = sqlite.completionNotices
  fired : memory.noticesFired = sqlite.noticesFired
  queued : memory.noticeOutbox = sqlite.noticeOutbox
  children : ∀ parent, memory.childIndex parent = sqlite.childrenOf .sqlite parent
  sorted : ∀ parent, (sqlite.detached parent).Pairwise (· ≤ ·)
  unarmed : memory.fault = none ∧ sqlite.fault = none

namespace Agree

variable {memory sqlite : Store}

theorem empty : Agree .empty .empty where
  cell _ := ⟨rfl, rfl⟩
  wakes := rfl
  delegation _ := rfl
  background _ := rfl
  notices := rfl
  fired := rfl
  queued := rfl
  children _ := (mergeSort_eq_self .nil).symm
  sorted _ := .nil
  unarmed := ⟨rfl, rfl⟩

section

variable (agree : Agree memory sqlite)

include agree

theorem setCell (id : SessionId) (alike : first.Alike second) :
    Agree (memory.setCell id first) (sqlite.setCell id second) := by
  refine { agree with cell := fun session => ?_ }
  by_cases same : session = id
  · subst same
    rw [setCell_cell_self, setCell_cell_self]
    exact alike
  · rw [setCell_cell_of_ne _ _ same, setCell_cell_of_ne _ _ same]
    exact agree.cell session

theorem addSession (id : SessionId) (alike : first.Alike second) :
    Agree (memory.addSession id first) (sqlite.addSession id second) :=
  { agree.setCell id alike with }

theorem attach_follows (follows : sqlite.Follows child edge)
    (new : once = true → child ∉ sqlite.childrenOf .sqlite edge.parent) :
    Agree (memory.attach .memory once child edge) (sqlite.attach .sqlite once child edge) := by
  rw [← agree.children] at new
  have children (parent : SessionId) :
      (memory.attach .memory once child edge).childIndex parent =
        (sqlite.attach .sqlite once child edge).childrenOf .sqlite parent := by
    rw [attach, putRow_childIndex, indexChild_of_new new,
      childrenOf_attach_of_follows follows agree.sorted, ← agree.children]
    -- a new edge puts the child behind its siblings in the index
    by_cases same : parent = edge.parent
    · rw [same, if_pos rfl]
      exact Function.update_self _ _ _
    · rw [if_neg same]
      exact Function.update_of_ne same _ _
  have sorted : ∀ parent, ((sqlite.attach .sqlite once child edge).detached parent).Pairwise _ :=
    sorted_attach follows agree.sorted
  rw [attach, indexChild_of_new new] at children ⊢
  cases edge with
  | delegation job =>
    refine { agree with delegation := fun other => ?_, children := children, sorted := sorted }
    exact lookup_replace_eq_ignore agree.delegation follows.1 other
  | childEdge bound label =>
    refine { agree with background := fun other => ?_, children := children, sorted := sorted }
    exact lookup_replace_eq_ignore agree.background follows.1 other
  | completionNotice bound callId =>
    refine { agree with notices := ?_, children := children, sorted := sorted }
    exact congrArg (insertOrIgnore child (bound, callId)) agree.notices

theorem attach_repeats (repeats : sqlite.Repeats child edge) :
    Agree (memory.attach .memory true child edge) (sqlite.attach .sqlite true child edge) := by
  have present := mem_childrenOf_of_repeats repeats
  rw [← agree.children] at present
  rw [attach_of_repeats repeats, attach, indexChild,
    if_pos (by rwa [Bool.true_and, List.contains_iff_mem])]
  cases edge with
  | delegation job =>
    refine { agree with delegation := fun other => ?_ }
    rw [← agree.delegation]
    exact lookup_insertOrReplace_of_same ((agree.delegation child).trans repeats) other
  | childEdge bound label =>
    refine { agree with background := fun other => ?_ }
    rw [← agree.background]
    exact lookup_insertOrReplace_of_same ((agree.background child).trans repeats) other
  | completionNotice bound callId =>
    obtain ⟨_, bound, _⟩ := Option.map_eq_some_iff.mp repeats
    refine { agree with notices := ?_ }
    rw [← agree.notices] at bound ⊢
    exact insertOrIgnore_of_present bound

theorem attach (fits : sqlite.Fits once child edge) :
    Agree (memory.attach .memory once child edge) (sqlite.attach .sqlite once child edge) := by
  rcases fits with ⟨follows, new⟩ | ⟨rfl, repeats⟩
  · exact agree.attach_follows follows new
  · exact agree.attach_repeats repeats

theorem putEdge {edge : Option RunnableEdge} (fits : ∀ bound ∈ edge, sqlite.Fits true child bound) :
    Agree (memory.putEdge .memory child edge) (sqlite.putEdge .sqlite child edge) := by
  cases edge with
  | none => exact agree
  | some bound =>
    rw [putEdge_some, putEdge_some]
    exact agree.attach (fits bound rfl)

theorem applyAndWake (completion : JobCompletion) :
    Agree (memory.applyAndWake .memory completion) (sqlite.applyAndWake .sqlite completion) := by
  have applied := (agree.cell completion.sessionId).applyCompletion completion
  unfold Store.applyAndWake
  revert applied
  rcases (memory.cell completion.sessionId).applyCompletion .memory completion with
    ⟨fresh, cell⟩
  rcases (sqlite.cell completion.sessionId).applyCompletion .sqlite completion with
    ⟨_, other⟩
  rintro ⟨rfl, alike⟩
  cases fresh with
  | false => exact agree
  | true =>
    exact { agree.setCell completion.sessionId alike with
      wakes := congrArg (· ++ [completion.sessionId]) agree.wakes }

/-- A job of an existing parent is fulfilled alike. -/
theorem fulfil
    (parent : ∀ job ∈ sqlite.delegations.lookup checkpoint.sessionId,
      (sqlite.cell job.sessionId).record.isSome) :
    Agree (memory.fulfil .memory checkpoint) (sqlite.fulfil .sqlite checkpoint) := by
  unfold Store.fulfil
  rw [agree.delegation]
  cases bound : sqlite.delegations.lookup checkpoint.sessionId with
  | none => exact agree
  | some job =>
    obtain ⟨record, present⟩ := Option.isSome_iff_exists.mp (parent job bound)
    rw [(agree.cell job.sessionId).record] at present
    simp only [present]
    exact agree.applyAndWake _

theorem notify (checkpoint : Checkpoint) :
    Agree (memory.notify checkpoint) (sqlite.notify checkpoint) := by
  unfold Store.notify
  rw [agree.notices, agree.fired, agree.queued]
  split
  · exact agree
  · split
    · exact agree
    · exact { agree with notices := rfl, fired := rfl, queued := rfl }

theorem markCompleted (inOrder : sqlite.InOrder (.markCompleted checkpoint fence)) :
    Agree (memory.markCompleted .memory checkpoint fence).2
      (sqlite.markCompleted .sqlite checkpoint fence).2 := by
  have alike := agree.cell checkpoint.sessionId
  unfold Store.markCompleted Store.checkFence Store.withRecord
  rw [alike.record]
  cases present : (memory.cell checkpoint.sessionId).record with
  | none => exact agree
  | some record =>
    dsimp only
    split
    · exact agree
    · refine Agree.notify (Agree.fulfil (agree.setCell _ (alike.complete checkpoint record)) ?_) _
      intro job bound
      by_cases own : job.sessionId = checkpoint.sessionId
      · rw [own, setCell_cell_self]
        rfl
      · rw [setCell_cell_of_ne _ _ own]
        exact inOrder (by rw [alike.record, present]; rfl) job bound

theorem createRunnable (inOrder : sqlite.InOrder (.createRunnable spec now)) :
    Agree (memory.createRunnable .memory spec now).2
      (sqlite.createRunnable .sqlite spec now).2 := by
  have alike := agree.cell spec.id
  unfold Store.createRunnable Store.takeFault
  rw [alike.record, agree.unarmed.1, agree.unarmed.2]
  cases present : (memory.cell spec.id).record with
  | some record => exact agree
  | none =>
    exact (agree.putEdge (inOrder (alike.record.trans present))).addSession _ (alike.opened _ _ _)

end

end Agree

/-- The store after a sequence of operations. -/
def after (backend : Backend) (ops : List Op) : Store :=
  ops.foldl (fun store op => (serve backend store op).2) .empty

end Store

/-- The operations on the session tree. -/
def Op.onTree : Op → Bool
  | .createRunnable _ _ => true
  | .bindDelegation _ _ => true
  | .recordChildEdge _ _ _ => true
  | .bindCompletionNotice _ _ _ => true
  | .enqueueDetachedJob _ => true
  | .markCompleted _ _ => true
  | _ => false

open Store in

/-- What the two backends show of the session tree and of the ends of sessions. -/
structure TreesAgree (memory sqlite : Store) : Prop where
  children : ∀ parent, memory.childrenOf .memory parent = sqlite.childrenOf .sqlite parent
  work : ∀ text child, memory.delegationWork text child = sqlite.delegationWork text child
  wakes : memory.wakeOutbox = sqlite.wakeOutbox
  completions : ∀ id, (memory.cell id).unapplied = (sqlite.cell id).unapplied
  notices : memory.noticeOutbox = sqlite.noticeOutbox

theorem Store.Agree.trees (agree : Store.Agree memory sqlite) :
    TreesAgree memory sqlite where
  children := agree.children
  work text child := by
    rw [Store.delegationWork, Store.delegationWork, agree.delegation, agree.background]
  wakes := agree.wakes
  completions id := (agree.cell id).unapplied.symm
  notices := agree.queued

/-- After every sequence of tree operations, each in order, the two backends show
the same tree, wakes, completions and notices. -/
theorem backends_agree_on_tree {ops : List Op} (onTree : ∀ op ∈ ops, op.onTree = true)
    (inOrder : ∀ earlier op later, ops = earlier ++ op :: later →
      (Store.after .sqlite earlier).InOrder op) :
    TreesAgree (Store.after .memory ops) (Store.after .sqlite ops) := by
  apply Store.Agree.trees
  refine Machine.lockstep .empty fun earlier op later parted agree => ?_
  have member : op ∈ ops := by
    rw [parted]
    exact List.mem_append_right _ List.mem_cons_self
  have onTree := onTree op member
  have inOrder := inOrder earlier op later parted
  cases op with
  | createRunnable spec now => exact agree.createRunnable inOrder
  | bindDelegation | recordChildEdge | bindCompletionNotice => exact agree.attach inOrder
  | enqueueDetachedJob job => exact { agree with }
  | markCompleted checkpoint fence => exact agree.markCompleted inOrder
  | _ => exact absurd onTree Bool.false_ne_true

def childJob (parent : SessionId) (job : JobId) (payload : Blob) : JobCommand :=
  ⟨job, parent, 1, payload, .persistent, none⟩

def childSpec (id : SessionId) (edge : Option RunnableEdge) : RunnableSession :=
  ⟨id, 0, [], .joiningChild, edge, none⟩

/-- A delegated, a background and a detached child of one session, the last bound
once more when it is created; the first and the last end. -/
def threeChildren : List Op :=
  [.createRunnable (childSpec "p" none) 0,
    .createRunnable (childSpec "c" (some (.delegation (childJob "p" "j" [1])))) 0,
    .recordChildEdge "p" "b" "review",
    .enqueueDetachedJob (childJob "p" "k" []),
    .bindCompletionNotice "p/d1" "p" (some "call"),
    .createRunnable (childSpec "p/d1" (some (.completionNotice "p" none))) 0,
    .markCompleted ⟨"c", 1, [], some [2], none, []⟩ 0,
    .markCompleted ⟨"p/d1", 1, [], some [3], none, []⟩ 0]

theorem threeChildren_agree :
    TreesAgree (Store.after .memory threeChildren) (Store.after .sqlite threeChildren) ∧
      (Store.after .memory threeChildren).childrenOf .memory "p" = ["c", "b", "p/d1"] ∧
      (Store.after .memory threeChildren).wakeOutbox = ["p"] ∧
      (Store.after .memory threeChildren).noticeOutbox = [⟨"p", "p/d1", some "call", [3]⟩] :=
  ⟨backends_agree_on_tree (by decide)
      ((Lists.forall_split_iff fun earlier op =>
        (Store.after .sqlite earlier).InOrder op).mpr (by decide +kernel)),
    by decide +kernel, by decide +kernel, by decide +kernel⟩

/-- A child is created with a delegation, the edge is asserted again, the child is
delegated to a second parent and ends. -/
def boundAgain : List Op :=
  [.createRunnable (childSpec "p" none) 0,
    .createRunnable (childSpec "q" none) 0,
    .createRunnable (childSpec "c" (some (.delegation (childJob "p" "j" [1])))) 0,
    .bindDelegation "c" (childJob "p" "j" [1]),
    .bindDelegation "c" (childJob "q" "k" [2]),
    .markCompleted ⟨"c", 1, [], some [3], none, []⟩ 0]

theorem boundAgain_disagrees :
    (∀ op ∈ boundAgain, op.onTree = true) ∧
      (Store.after .memory boundAgain).childrenOf .memory "p" = ["c", "c"] ∧
      (Store.after .sqlite boundAgain).childrenOf .sqlite "p" = ["c"] ∧
      (Store.after .memory boundAgain).childrenOf .memory "q" = ["c"] ∧
      (Store.after .sqlite boundAgain).childrenOf .sqlite "q" = [] ∧
      (∀ text,
        (Store.after .memory boundAgain).delegationWork text "c" = some (text [2]) ∧
          (Store.after .sqlite boundAgain).delegationWork text "c" = some (text [1])) ∧
      (Store.after .memory boundAgain).wakeOutbox = ["q"] ∧
      (Store.after .sqlite boundAgain).wakeOutbox = ["p"] ∧
      ((Store.after .memory boundAgain).cell "p").unapplied = [] ∧
      ((Store.after .sqlite boundAgain).cell "p").unapplied = [⟨"p", 1, "j", [3]⟩] ∧
      ¬TreesAgree (Store.after .memory boundAgain) (Store.after .sqlite boundAgain) := by
  refine ⟨by decide, by decide +kernel, by decide +kernel, by decide +kernel, by decide +kernel,
    fun text => ⟨rfl, rfl⟩, by decide +kernel, by decide +kernel, by decide +kernel,
    by decide +kernel, ?_⟩
  intro agree
  exact absurd agree.wakes (by decide +kernel)

end DaemonNode.SessionStore
