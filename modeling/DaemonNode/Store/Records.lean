import DaemonNode.Lib.Register
import DaemonNode.Store.Redelivery

/-!
# The record of a session as a fenced register

The snapshot of a session is a register under the session's fence: activations
are granted a fence, load the snapshot and commit a new one, and
`swapSnapshotIfDormant` edits it from outside. Whether the session is dormant is
read off its status, which other operations write too.
-/

namespace DaemonNode.SessionStore

variable {done : Deed} {fence : Nat} {trace : List Recorded}

/-- The snapshot of a session under its fence; the session is busy while its
status says so. -/
def Cell.register (cell : Cell) : Register.State Blob where
  fence := cell.record.elim 0 SessionRecord.fence
  value := cell.record.map SessionRecord.snapshot
  busy := cell.record.any fun record => record.status = .active

def Deed.registerEvent : Deed → Option (Register.Event Blob)
  | .granted fence => some (.granted fence)
  | .loaded activation => some (.loaded activation.fence activation.snapshot)
  | .committed _ _ fence => some (.committed fence)
  | .opened => none
  | .claimed _ _ => none

/-- Whether an operation has edited the snapshot of a session. -/
def edits (session : SessionId) : Op → Reply → Bool
  | .swapSnapshotIfDormant id _ _, .ok (.flag true) => id = session
  | _, _ => false

/-- An operation as the register of a session sees it. -/
def registerEvent (backend : Backend) (session : SessionId) (store : Store) (op : Op)
    (reply : Reply) : Option (Register.Event Blob) :=
  match deedOf session op reply with
  | some done => done.registerEvent
  | none =>
    if edits session op reply then some .edited
    else if store.wakes backend op = some session then some .woken
    else none

namespace Cell

variable {cell after : Cell}

theorem register_of_present {record : SessionRecord} (present : cell.record = some record) :
    cell.register = ⟨record.fence, some record.snapshot, decide (record.status = .active)⟩ := by
  rw [register, present]
  rfl

theorem register_commit {record written : SessionRecord}
    (present : cell.record = some record) (current : record.fence ≤ fence)
    (kept : after.record = some written) (same : written.fence = record.fence) :
    Register.Move cell.register (some (.committed fence)) after.register := by
  rw [register_of_present present, register_of_present kept, same]
  exact .commit _ fence _ _ current

/-- A move that shows a deed, as a move of the register. -/
theorem Move.register (moved : Move backend cell (some done) after) :
    Register.Move cell.register done.registerEvent after.register := by
  cases moved with
  | opened record policy input absent unfenced status =>
    have closed : cell.register = ⟨0, none, false⟩ := by
      rw [Cell.register, absent]
      rfl
    have present : (cell.opened record policy input).record = some record := by
      cases input with
      | none | some => rfl
    have dormant : decide (record.status = .active) = false := by
      rcases status with ready | ⟨idle, _⟩
      · rw [ready]
        rfl
      · rw [idle]
        rfl
    rw [closed, register_of_present present, unfenced, dormant]
    exact .create ⟨0, none, false⟩ _ rfl
  | claimed record fence present current => exact .stay _
  | granted record present =>
    rw [register_of_present present]
    exact .grant _
  | loaded record fence present =>
    refine .load _ fence record.snapshot ?_
    rw [register_of_present present]
  | suspended record checkpoint job fence present current =>
    exact register_commit present current rfl rfl
  | completed record checkpoint fence present current =>
    exact register_commit present current rfl rfl
  | fulfilled record checkpoint fence completion present current =>
    by_cases known : (cell.complete checkpoint record).Knows backend completion.key
    · rw [applyCompletion_of_knows known]
      exact register_commit present current rfl rfl
    · unfold applyCompletion
      rw [if_pos (isFresh_of_not_knows known)]
      exact register_commit present current rfl rfl
  | turned record checkpoint fence present current => exact register_commit present current rfl rfl
  | parked record checkpoint approvals rows fence present current =>
    refine register_commit present current rfl ?_
    unfold parkedRecord
    split
    · rfl
    · rfl
    · rfl

end Cell

variable {store : Store} {session : SessionId} {op : Op} {reply : Reply}

theorem serve_swap {id : SessionId}
    (served : serve backend store (.swapSnapshotIfDormant id expected new) =
      (.ok (.flag true), after)) :
    ∃ record, (store.cell id).record = some record ∧ record.status ≠ .active ∧
      (after.cell id).record = some { record with snapshot := new } := by
  simp only [serve, Outcome.reply, Store.swapSnapshotIfDormant, Store.withRecord] at served
  split at served
  · cases served
  rename_i record present
  split at served
  · cases served
  rename_i dormant
  cases served
  refine ⟨record, present, fun active => dormant (.inl active), ?_⟩
  rw [Store.setCell_cell_self]

/-- An edit is a move of the register of a session that looks dormant. -/
theorem edit_move (served : serve backend store op = (reply, after))
    (edited : edits session op reply = true) :
    Register.Move (store.cell session).register (some .edited) (after.cell session).register := by
  unfold edits at edited
  split at edited
  swap
  · cases edited
  rename_i id expected new
  obtain rfl := of_decide_eq_true edited
  obtain ⟨record, present, dormant, kept⟩ := serve_swap served
  rw [Cell.register_of_present present, Cell.register_of_present kept]
  exact .edit _ new (decide_eq_false dormant)

/-- A shift that is no edit keeps fence and snapshot, and only a wake changes
whether the session is busy. -/
theorem Store.Shift.register {cell : Cell}
    (shifted : store.Shift backend op reply session cell.record)
    (unedited : edits session op reply = false) :
    Register.Move (store.cell session).register
      (if store.wakes backend op = some session then some .woken else none) cell.register := by
  have quiet (state : Register.State Blob) :
      Register.Move state (if store.wakes backend op = some session then some .woken else none)
        state := by
    split
    · exact .wake state state.busy
    · exact .stay state
  generalize written : cell.record = record at shifted
  cases shifted with
  | same =>
    have same : cell.register = (store.cell session).register := by
      rw [Cell.register, written]
      rfl
    rw [same]
    exact quiet _
  | readied record present settled =>
    have dormant : decide (record.status = .active) = false := by
      rcases settled with completed | idle
      · rw [completed]
        rfl
      · rw [idle]
        rfl
    rw [Cell.register_of_present present, Cell.register_of_present written, dormant]
    exact quiet _
  | woken wakes =>
    rw [if_pos wakes]
    cases present : (store.cell session).record with
    | none =>
      rw [present] at written
      have same : cell.register = (store.cell session).register := by
        rw [Cell.register, Cell.register, written, present]
        rfl
      rw [same]
      exact .wake _ _
    | some record =>
      rw [present] at written
      rw [Cell.register_of_present present, Cell.register_of_present written]
      exact .wake _ false
  | swapped record expected new swap answer present dormant =>
    rw [swap, answer] at unedited
    simp [edits] at unedited

/-- An operation is a move of every register. -/
theorem register_move (served : serve backend store op = (reply, after)) (session : SessionId) :
    Register.Move (store.cell session).register (registerEvent backend session store op reply)
      (after.cell session).register := by
  unfold registerEvent
  split
  · rename_i done shown
    have moved := (serve_done served).effect.move session
    rw [← deedOf, shown] at moved
    exact moved.register
  · rename_i silent
    split
    · rename_i edited
      exact edit_move served edited
    · rename_i unedited
      exact ((serve_done served).shift session silent).register (Bool.not_eq_true _ ▸ unedited)

/-- The operations served from the empty store, with other tables changing in
between. -/
inductive Served (backend : Backend) : List Recorded → Store → Prop
  | nil : Served backend [] Store.empty
  | serve {trace store op reply after} :
      Served backend trace store →
      serve backend store op = (reply, after) →
      Served backend (trace ++ [⟨store, op, after, [reply]⟩]) after
  | touch {trace store after} :
      Served backend trace store →
      Store.Same after store →
      Served backend trace after

theorem served_of_run
    (run : Machine.Run (Machine.graph (machine backend)) Store.empty trace store) :
    Served backend trace store := by
  induction run with
  | nil => exact .nil
  | snoc earlier stepped served =>
    cases stepped
    exact .serve served rfl

/-- What the register of a session sees of a history. -/
def registerEvents (backend : Backend) (session : SessionId) (trace : List Recorded) :
    List (Register.Event Blob) :=
  trace.flatMap fun recorded =>
    recorded.output.filterMap (registerEvent backend session recorded.before recorded.input)

@[simp] theorem registerEvents_append (backend : Backend) (session : SessionId)
    (earlier later : List Recorded) :
    registerEvents backend session (earlier ++ later) =
      registerEvents backend session earlier ++ registerEvents backend session later :=
  List.flatMap_append

theorem registerEvents_singleton (backend : Backend) (session : SessionId)
    (store after : Store) (op : Op) (reply : Reply) :
    registerEvents backend session [⟨store, op, after, [reply]⟩] =
      (registerEvent backend session store op reply).toList := by
  rw [registerEvents, List.flatMap_singleton]
  cases event : registerEvent backend session store op reply with
  | none | some => simp [event]

theorem mem_registerEvents :
    event ∈ registerEvents backend session trace ↔ ∃ recorded ∈ trace, ∃ reply ∈ recorded.output,
      registerEvent backend session recorded.before recorded.input reply = some event := by
  simp only [registerEvents, List.mem_flatMap, List.mem_filterMap]

theorem mem_deeds :
    done ∈ deeds session trace ↔ ∃ recorded ∈ trace, ∃ reply ∈ recorded.output,
      deedOf session recorded.input reply = some done := by
  simp only [deeds, deedsOf, List.mem_flatMap, List.mem_filterMap]

theorem registerEvent_eq_loaded_iff :
    registerEvent backend session store op reply = some (.loaded fence snapshot) ↔
      ∃ activation, deedOf session op reply = some (.loaded activation) ∧
        activation.fence = fence ∧ activation.snapshot = snapshot := by
  unfold registerEvent
  split
  · rename_i done shown
    rw [shown]
    cases done with
    | loaded | opened | granted | claimed | committed => simp [Deed.registerEvent]
  · rename_i silent
    rw [silent]
    split
    · simp
    · split
      · simp
      · simp

/-- The register has seen the loads that the deeds show. -/
theorem loaded_mem_registerEvents_iff :
    .loaded fence snapshot ∈ registerEvents backend session trace ↔
      ∃ activation, .loaded activation ∈ deeds session trace ∧
        activation.fence = fence ∧ activation.snapshot = snapshot := by
  rw [mem_registerEvents]
  constructor
  · rintro ⟨recorded, member, reply, answered, event⟩
    obtain ⟨activation, shown, same⟩ := registerEvent_eq_loaded_iff.mp event
    exact ⟨activation, mem_deeds.mpr ⟨recorded, member, reply, answered, shown⟩, same⟩
  · rintro ⟨activation, listed, same⟩
    obtain ⟨recorded, member, reply, answered, shown⟩ := mem_deeds.mp listed
    exact ⟨recorded, member, reply, answered,
      registerEvent_eq_loaded_iff.mpr ⟨activation, shown, same⟩⟩

/-- How activations of a session use the store: each loads under a fence it was
granted and commits at most once, after it has loaded. -/
def Fenced (backend : Backend) (session : SessionId) (trace : List Recorded) : Prop :=
  ∀ earlier recorded later, trace = earlier ++ recorded :: later →
    ∀ event ∈ registerEvents backend session [recorded],
      Register.Allowed (registerEvents backend session earlier) event

instance (backend : Backend) (session : SessionId) (trace : List Recorded) :
    Decidable (Fenced backend session trace) :=
  decidable_of_iff _ (Lists.forall_split_iff fun earlier recorded =>
    ∀ event ∈ registerEvents backend session [recorded],
      Register.Allowed (registerEvents backend session earlier) event).symm

theorem Fenced.of_append (fenced : Fenced backend session (trace ++ rest)) :
    Fenced backend session trace := by
  intro earlier recorded later parted
  exact fenced earlier recorded (later ++ rest)
    (by rw [parted, List.append_assoc, List.cons_append])

/-- The register of a session keeps its law along every fenced history. -/
theorem Served.law (served : Served backend trace store) (fenced : Fenced backend session trace) :
    Register.Law (registerEvents backend session trace) (store.cell session).register := by
  induction served with
  | nil => exact .empty
  | touch _ same ih =>
    rw [same.cell]
    exact ih fenced
  | @serve trace store op reply after _ step ih =>
    rw [registerEvents_append, registerEvents_singleton]
    refine (ih fenced.of_append).move (register_move step session) ?_
    intro shown event
    apply fenced trace _ [] rfl
    rw [registerEvents_singleton, Option.mem_toList]
    exact event

end DaemonNode.SessionStore
