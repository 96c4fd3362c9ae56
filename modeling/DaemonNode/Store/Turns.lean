import DaemonNode.Store.Records

/-!
# Turns and snapshots in the deeds of a session

The record of a session agrees with the commits that its history shows: the turn
number counts the commits that ended a turn, and the snapshot is the one of the
last commit unless an operator has edited it.
-/

namespace DaemonNode.SessionStore

def Commit.endsTurn : Commit → Bool
  | .turn => true
  | .completion => true
  | .suspension => false
  | .park _ => false

def Deed.endsTurn : Deed → Bool
  | .committed commit _ _ => commit.endsTurn
  | .opened => false
  | .granted _ => false
  | .loaded _ => false
  | .claimed _ _ => false

/-- The number of turns that a history ends. -/
def turns (done : List Deed) : Nat := done.countP Deed.endsTurn

def Deed.commit? : Deed → Option (Commit × Checkpoint × Nat)
  | .committed commit checkpoint fence => some (commit, checkpoint, fence)
  | .opened => none
  | .granted _ => none
  | .loaded _ => none
  | .claimed _ _ => none

def lastCommit (done : List Deed) : Option (Commit × Checkpoint × Nat) :=
  (done.filterMap Deed.commit?).getLast?

@[simp] theorem turns_append (done rest : List Deed) :
    turns (done ++ rest) = turns done + turns rest :=
  List.countP_append

/-- The number of the turn in flight; a session that does not exist has had none. -/
def Cell.turn (cell : Cell) : Nat := cell.record.elim 0 SessionRecord.turnSeq

namespace Cell

variable {cell after : Cell}

theorem turn_of_present {record : SessionRecord} (present : cell.record = some record) :
    cell.turn = record.turnSeq := by
  rw [turn, present]
  rfl

@[simp] theorem setStatus_turn (cell : Cell) (status : SessionStatus) :
    (cell.setStatus status).turn = cell.turn := by
  unfold turn setStatus
  cases cell.record with
  | none | some => rfl

@[simp] theorem applyCompletion_turn (completion : JobCompletion) (cell : Cell) :
    (cell.applyCompletion backend completion).2.turn = cell.turn := by
  unfold applyCompletion
  split
  · exact setStatus_turn cell .ready
  · rfl

@[simp] theorem readyIfIdle_turn (cell : Cell) : cell.readyIfIdle.turn = cell.turn := by
  unfold readyIfIdle
  split
  · exact setStatus_turn cell .ready
  · rfl

/-- Apart from creation a move ends a turn where its deed says so. -/
theorem Move.turn (moved : Move backend cell done after) (existing : done ≠ some .opened) :
    after.turn = cell.turn + turns done.toList := by
  cases moved with
  | opened => exact absurd rfl existing
  | readied record present => exact setStatus_turn cell .ready
  | appended record body present => exact readyIfIdle_turn _
  | granted record present =>
    rw [turn_of_present present]
    rfl
  | suspended record checkpoint job fence present current =>
    rw [turn_of_present present]
    rfl
  | completed record checkpoint fence present current =>
    rw [turn_of_present present]
    rfl
  | fulfilled record checkpoint fence completion present current =>
    rw [applyCompletion_turn, turn_of_present present]
    rfl
  | turned record checkpoint fence present current =>
    rw [turn_of_present present]
    rfl
  | parked record checkpoint approvals rows fence present current =>
    rw [turn_of_present present, turn]
    change (parkedRecord backend checkpoint approvals record).turnSeq = _
    unfold parkedRecord
    split
    · rfl
    · rfl
    · rfl
  | recorded completion present => exact applyCompletion_turn completion cell
  | answered row job allow completion filed => exact applyCompletion_turn completion _
  | swapped record snapshot present dormant =>
    rw [turn_of_present present]
    rfl
  | _ => rfl

end Cell

variable {store : Store}

theorem created_of_opened (opened : deedOf session op reply = some .opened) :
    created op reply = some session := by
  unfold deedOf concerning deed at opened
  split at opened
  · rename_i id done shown
    split at opened
    · rename_i same
      subst same
      cases opened
      split at shown
      · rename_i made
        obtain ⟨rfl, _⟩ := Prod.mk.inj (Option.some.inj shown)
        exact made
      · split at shown <;> cases shown
      all_goals cases shown
    · cases opened
  · cases opened

theorem insertFresh_opened {id : SessionId}
    (served : (store.insertFresh id cell).reply (fun _ => .done) = (.ok answer, after)) :
    (store.cell id).record = none ∧ after.cell id = cell := by
  unfold Store.insertFresh at served
  split at served
  · cases served
  rename_i absent
  rw [Bool.not_eq_true, Option.isSome_eq_false_iff, Option.isNone_iff_eq_none] at absent
  cases served
  exact ⟨absent, Store.setCell_cell_self store id cell⟩

theorem serve_opened (served : serve backend store op = (reply, after))
    (opened : deedOf session op reply = some .opened) :
    (store.cell session).record = none ∧
      ∃ partition snapshot status,
        (after.cell session).record = some (Store.freshRecord partition snapshot status) := by
  have made := created_of_opened opened
  cases op with
  | createSession id partition snapshot =>
    cases reply with
    | error refused => cases made
    | ok answer =>
      cases made
      obtain ⟨absent, cell⟩ := insertFresh_opened served
      exact ⟨absent, partition, snapshot, .ready, by rw [cell]⟩
  | createIdle id partition snapshot =>
    cases reply with
    | error refused => cases made
    | ok answer =>
      cases made
      obtain ⟨absent, cell⟩ := insertFresh_opened served
      exact ⟨absent, partition, snapshot, .idle, by rw [cell]⟩
  | createRunnable spec now =>
    simp only [serve, Outcome.reply, Store.createRunnable] at served
    split at served
    · cases served
      cases made
    rename_i absent
    rw [Bool.not_eq_true, Option.isSome_eq_false_iff, Option.isNone_iff_eq_none] at absent
    unfold Store.takeFault at served
    split at served
    · cases served
      cases made
    cases served
    cases made
    refine ⟨absent, spec.partition, spec.snapshot, .ready, ?_⟩
    change ((Store.setCell _ spec.id _).cell spec.id).record = _
    rw [Store.setCell_cell_self]
    cases Store.firstSplice spec now with
    | none | some => rfl
  | _ => cases made

/-- The turn number counts the deeds that end a turn. -/
theorem serve_turn (served : serve backend store op = (reply, after)) (session : SessionId) :
    (after.cell session).turn =
      (store.cell session).turn + turns (deedOf session op reply).toList := by
  by_cases opened : deedOf session op reply = some .opened
  · obtain ⟨absent, partition, snapshot, status, present⟩ := serve_opened served opened
    rw [opened, Cell.turn_of_present present, Cell.turn, absent]
    rfl
  · exact ((serve_done served).effect.move session).turn opened

/-- Whether a commit of this kind writes its snapshot: a park without approvals
does not in SQLite. -/
def Commit.writes : Backend → Commit → Bool
  | .sqlite, .park files => files
  | _, _ => true

/-- A commit leaves its snapshot. -/
theorem Cell.Move.snapshot
    (moved : Cell.Move backend cell (some (.committed commit checkpoint fence)) after)
    (writes : commit.writes backend = true) :
    after.record.map SessionRecord.snapshot = some checkpoint.snapshot := by
  cases moved with
  | suspended | completed | turned => rfl
  | fulfilled record checkpoint fence completion present current =>
    unfold Cell.applyCompletion
    split
    · rfl
    · rfl
  | parked record checkpoint approvals rows fence present current =>
    cases backend with
    | memory =>
      change some (parkedRecord .memory checkpoint approvals record).snapshot = _
      cases approvals with
      | nil | cons => rfl
    | sqlite =>
      cases approvals with
      | nil => cases writes
      | cons => rfl

/-- A deed that is neither a creation nor a commit leaves the snapshot alone. -/
theorem Cell.Move.snapshot_of_no_commit (moved : Cell.Move backend cell (some done) after)
    (other : done.commit? = none) (existing : done ≠ .opened) :
    after.record.map SessionRecord.snapshot = cell.record.map SessionRecord.snapshot := by
  cases moved with
  | opened => exact absurd rfl existing
  | claimed | loaded => rfl
  | granted record present =>
    rw [present]
    rfl
  | suspended | completed | fulfilled | turned | parked => cases other

/-- A shift that is no edit leaves the snapshot alone. -/
theorem Store.Shift.snapshot (shifted : store.Shift backend op reply session record)
    (unedited : edits session op reply = false) :
    record.map SessionRecord.snapshot = (store.cell session).record.map SessionRecord.snapshot := by
  cases shifted with
  | same => rfl
  | readied record present settled =>
    rw [present]
    rfl
  | woken wakes =>
    rw [Option.map_map]
    rfl
  | swapped record expected new swap answer present dormant =>
    rw [swap, answer] at unedited
    simp [edits] at unedited

theorem Served.snapshot (served : Served backend trace store)
    (unedited : .edited ∉ registerEvents backend session trace)
    (last : lastCommit (deeds session trace) = some (commit, checkpoint, fence))
    (writes : commit.writes backend = true) :
    (store.cell session).record.map SessionRecord.snapshot = some checkpoint.snapshot := by
  induction served with
  | nil => cases last
  | touch _ same ih =>
    rw [same.cell]
    exact ih unedited last
  | @serve trace store op reply after _ step ih =>
    rw [registerEvents_append, registerEvents_singleton, List.mem_append, not_or] at unedited
    rw [deeds_append, deeds_singleton] at last
    have moved := (serve_done step).effect.move session
    rw [← deedOf] at moved
    cases shown : deedOf session op reply with
    | none =>
      rw [shown, Option.toList_none, List.append_nil] at last
      rw [← ih unedited.1 last]
      apply ((serve_done step).shift session shown).snapshot
      by_contra edited
      rw [Bool.not_eq_false] at edited
      apply unedited.2
      rw [registerEvent, shown]
      simp [edited]
    | some done =>
      rw [shown] at moved last
      cases committed : done.commit? with
      | some commit =>
        cases done with
        | committed commit checkpoint fence =>
          simp [lastCommit, Deed.commit?] at last
          obtain ⟨rfl, rfl, rfl⟩ := last
          exact moved.snapshot writes
        | opened | granted | loaded | claimed => cases committed
      | none =>
        have kept := ih unedited.1 (by simpa [lastCommit, committed] using last)
        by_cases opened : done = .opened
        · subst opened
          rw [(serve_opened step shown).1] at kept
          cases kept
        · rw [moved.snapshot_of_no_commit committed opened]
          exact kept

/-- The turn number of a session counts the turns its history has ended. -/
theorem Served.turn (served : Served backend trace store) (session : SessionId) :
    (store.cell session).turn = turns (deeds session trace) := by
  induction served with
  | nil => rfl
  | touch _ same ih =>
    rw [same.cell]
    exact ih
  | serve _ step ih => rw [deeds_append, deeds_singleton, turns_append, serve_turn step session, ih]

theorem registerEvent_of_deed (shown : deedOf session op reply = some done) :
    registerEvent backend session store op reply = done.registerEvent := by
  rw [registerEvent, shown]

theorem ungranted_of_deed (other : ∀ fence, deedOf session op reply ≠ some (.granted fence))
    (fence : Nat) :
    registerEvent backend session store op reply ≠ some (.granted fence) := by
  unfold registerEvent
  split
  · rename_i done shown
    cases done with
    | granted granted => exact absurd shown (other granted)
    | opened | loaded | claimed | committed => nofun
  · split
    · nofun
    · split
      · nofun
      · nofun

theorem Cell.Move.turnSeq_of_load
    (moved : Cell.Move backend cell (some (.loaded activation)) after) :
    activation.turnSeq = cell.turn := by
  cases moved with
  | loaded record fence present => exact (turn_of_present present).symm

/-- An activation that has loaded under the newest fence and has not committed
knows the turn in flight. -/
theorem Served.turn_in_flight (served : Served backend trace store)
    (fenced : Fenced backend session trace) (loaded : .loaded activation ∈ deeds session trace)
    (newest : activation.fence = (store.cell session).register.fence)
    (running : activation.fence ∉ Register.commits (registerEvents backend session trace)) :
    activation.turnSeq = (store.cell session).turn := by
  induction served with
  | nil => cases loaded
  | touch _ same ih =>
    rw [same.cell] at newest ⊢
    exact ih fenced loaded newest running
  | @serve trace store op reply after before step ih =>
    rw [deeds_append, deeds_singleton] at loaded
    rw [registerEvents_append, registerEvents_singleton, Register.commits_append,
      List.mem_append, not_or] at running
    have law := before.law fenced.of_append
    have turned := serve_turn step session
    have moved := register_move step session
    -- what is left when the fence stays and no turn ends
    have kept (older : .loaded activation ∈ deeds session trace)
        (ungranted : ∀ fence, deedOf session op reply ≠ some (.granted fence))
        (unended : turns (deedOf session op reply).toList = 0) :
        activation.turnSeq = (after.cell session).turn := by
      rw [moved.fence_eq (ungranted_of_deed ungranted)] at newest
      rw [turned, unended, Nat.add_zero]
      exact ih fenced.of_append older newest running.1
    cases shown : deedOf session op reply with
    | none =>
      rw [shown, Option.toList_none, List.append_nil] at loaded
      exact kept loaded (by simp [shown]) (by rw [shown]; rfl)
    | some done =>
      rw [shown, Option.toList_some, List.mem_append, List.mem_singleton] at loaded
      rw [registerEvent_of_deed shown] at moved running
      cases done with
      | opened | claimed =>
        exact kept (loaded.resolve_right (by rintro ⟨⟩)) (by simp [shown]) (by rw [shown]; rfl)
      | loaded now =>
        rcases loaded with older | same
        · exact kept older (by simp [shown]) (by rw [shown]; rfl)
        · obtain rfl := Deed.loaded.inj same
          have load := (serve_done step).effect.move session
          rw [← deedOf, shown] at load
          rw [load.turnSeq_of_load, turned, shown]
          rfl
      | granted fence =>
        -- nothing was loaded yet under a fence that is granted only now
        have older := loaded.resolve_right (by rintro ⟨⟩)
        have raised := moved.fence_of_grant
        have unloaded := law.orderly.loads_eq_nil_of_lt
          (show (store.cell session).register.fence < activation.fence by omega)
        have event : .loaded activation.fence activation.snapshot ∈
            registerEvents backend session trace :=
          loaded_mem_registerEvents_iff.mpr ⟨activation, older, rfl, rfl⟩
        have member := Register.mem_loads.mpr event
        rw [unloaded] at member
        cases member
      | committed commit checkpoint fence =>
        -- the commit is under the newest fence, which has then committed
        have allowed : Register.Allowed (registerEvents backend session trace)
            (.committed fence) := by
          apply fenced trace _ [] rfl
          rw [registerEvents_singleton, registerEvent_of_deed shown]
          exact List.mem_singleton_self _
        have same := law.orderly.fence_eq allowed.1 moved.le_of_commit
        have stays := moved.fence_eq (by rintro _ ⟨⟩)
        refine absurd ?_ running.2
        rw [newest, stays, ← same]
        exact List.mem_singleton_self _

end DaemonNode.SessionStore
