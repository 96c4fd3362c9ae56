import DaemonNode.Store.Moves

/-!
# No work is stranded

The status of a session is written by a dozen operations while its inbox and its
completions are kept elsewhere. Still an idle session never has work: whatever
creates work makes an idle session ready in the same step, and only a turn that
leaves nothing behind makes it idle.

This is a property of the in-memory backend. The SQLite backend records the
completion of a job for a parent that does not exist; when the parent is then
created idle, the completion waits for it unseen.
-/

namespace DaemonNode.SessionStore

open Machine

/-- No input and no completion waits. -/
def Cell.Settled (cell : Cell) : Prop :=
  Inbox.waiting cell.splices = [] ∧ cell.unapplied = []

variable {cell : Cell} {record : SessionRecord} {store : Store}

theorem Cell.hasWork_eq_false_iff : cell.hasWork = false ↔ cell.Settled := by
  simp [Cell.hasWork, Cell.Settled]

/-- An idle session is settled, and one that does not exist has nothing. -/
structure Cell.Tidy (cell : Cell) : Prop where
  idle : ∀ record, cell.record = some record → record.status = .idle → cell.Settled
  absent : cell.record = none → cell.splices = [] ∧ cell.unapplied = [] ∧ cell.pendingApprovals = []

namespace Cell

theorem tidy_empty : Cell.empty.Tidy := ⟨nofun, fun _ => ⟨rfl, rfl, rfl⟩⟩

/-- A session that exists and is not idle is tidy. -/
theorem Tidy.of_status (present : cell.record = some record) (busy : record.status ≠ .idle) :
    cell.Tidy where
  idle := by
    intro other same idle
    obtain rfl := Option.some.inj (present.symm.trans same)
    exact absurd idle busy
  absent := by
    rw [present]
    nofun

variable {after : Cell}

/-- A session that exists stays tidy when it keeps its status and gets no work. -/
theorem Tidy.of_settled (tidy : cell.Tidy) (present : cell.record = some record)
    (kept : after.record = some written) (status : written.status = .idle → record.status = .idle)
    (settled : cell.Settled → after.Settled) :
    after.Tidy where
  idle := by
    intro other same idle
    obtain rfl := Option.some.inj (kept.symm.trans same)
    exact settled (tidy.idle record present (status idle))
  absent := by
    rw [kept]
    nofun

theorem setStatus_record (present : cell.record = some record) (status : SessionStatus) :
    (cell.setStatus status).record = some { record with status := status } := by
  rw [setStatus, present]
  rfl

/-- Recording a completion makes a session ready. -/
theorem Tidy.applyCompletion (tidy : cell.Tidy) (present : cell.record = some record)
    (backend : Backend) (completion : JobCompletion) :
    (cell.applyCompletion backend completion).2.Tidy := by
  unfold Cell.applyCompletion
  split
  · exact .of_status (setStatus_record present .ready) nofun
  · exact tidy

theorem Tidy.readyIfIdle (present : cell.record = some record) : cell.readyIfIdle.Tidy := by
  unfold Cell.readyIfIdle
  split
  · exact .of_status (setStatus_record present .ready) nofun
  · rename_i busy
    refine .of_status present fun idle => busy ?_
    rw [present, Option.map_some, idle]

/-- Every move of the in-memory backend keeps a cell tidy. -/
theorem Move.tidy (moved : Move .memory cell done after) (tidy : cell.Tidy) : after.Tidy := by
  cases moved with
  | same => exact tidy
  | opened record policy input absent unfenced status =>
    rcases status with ready | ⟨idle, rfl⟩
    · have present : (cell.opened record policy input).record = some record := by
        cases input with
        | none | some => rfl
      refine .of_status present ?_
      rw [ready]
      nofun
    · obtain ⟨splices, unapplied, _⟩ := tidy.absent absent
      refine ⟨fun _ _ _ => ⟨?_, unapplied⟩, nofun⟩
      exact congrArg Inbox.waiting splices
  | readied record present => exact .of_status (setStatus_record present .ready) nofun
  | appended record body present =>
    have kept : (cell.pushSplice body).record = some record := present
    exact Tidy.readyIfIdle kept
  | claimed record fence present current =>
    exact tidy.of_settled present present id fun settled =>
      ⟨Inbox.waiting_take_eq_nil settled.1 fence, settled.2⟩
  | pruned cutoff =>
    have same : Inbox.waiting (cell.splices.filter (Store.keepsSplice cutoff)) =
        Inbox.waiting cell.splices :=
      Inbox.waiting_filter fun _ _ => Store.isConsumed_of_dropped
    refine ⟨fun record present idle => ?_, fun absent => ?_⟩
    · obtain ⟨settled, applied⟩ := tidy.idle record present idle
      exact ⟨same.trans settled, applied⟩
    · obtain ⟨splices, rest⟩ := tidy.absent absent
      refine ⟨?_, rest⟩
      change cell.splices.filter _ = []
      rw [splices, List.filter_nil]
  | granted | suspended | completed => exact .of_status rfl nofun
  | loaded record fence present =>
    exact tidy.of_settled present present id fun settled =>
      ⟨Inbox.waiting_take_eq_nil settled.1 fence, settled.2⟩
  | fulfilled record checkpoint fence completion present current =>
    have completed : (cell.complete checkpoint record).Tidy := .of_status rfl nofun
    exact completed.applyCompletion rfl .memory completion
  | turned record checkpoint fence present current =>
    refine ⟨fun written kept idle => ?_, nofun⟩
    cases kept
    -- a turn ends idle only when the folded cell has no work
    apply hasWork_eq_false_iff.mp
    by_contra busy
    rw [Bool.not_eq_false] at busy
    have ready : (cell.fold checkpoint record.turnSeq).turnStatus = .ready := if_pos busy
    rw [ready] at idle
    cases idle
  | parked record checkpoint approvals rows fence present current =>
    refine tidy.of_settled present rfl ?_ fun settled =>
      ⟨Inbox.waiting_consumeUpTo_eq_nil settled.1 _ _, settled.2⟩
    intro idle
    unfold parkedRecord at idle
    split at idle
    · cases idle
    · exact idle
    · exact idle
  | recorded completion present =>
    obtain ⟨record, present⟩ := Option.ne_none_iff_exists'.mp (present rfl)
    exact tidy.applyCompletion present .memory completion
  | answered row job allow completion filed =>
    obtain ⟨record, present⟩ : ∃ record, cell.record = some record := by
      rw [← Option.ne_none_iff_exists']
      intro absent
      rw [(tidy.absent absent).2.2] at filed
      cases filed
    have decided : (cell.decideApproval job allow).Tidy := tidy.of_settled present present id id
    exact decided.applyCompletion present .memory completion
  | filed rows elsewhere => cases elsewhere
  | swapped record snapshot present dormant => exact tidy.of_settled present rfl id id

/-- Only creation gives a cell a record. -/
theorem Move.present (moved : Move backend cell done after) (absent : cell.record = none)
    (present : after.record ≠ none) :
    done = some .opened := by
  cases moved with
  | opened => rfl
  | same | pruned | filed => exact absurd absent present
  | recorded completion =>
    refine absurd ?_ present
    unfold applyCompletion
    split
    · rw [setStatus, absent]
      rfl
    · exact absent
  | answered row job allow completion filed =>
    refine absurd ?_ present
    unfold applyCompletion
    split
    · rw [setStatus, decideApproval, absent]
      rfl
    · exact absent
  | _ => simp_all

end Cell

/-- Every cell is tidy and every session with a record is listed. -/
structure Store.Tidy (store : Store) : Prop where
  cell : ∀ session, (store.cell session).Tidy
  listed : ∀ session, (store.cell session).record ≠ none → session ∈ store.sessions

theorem Store.tidy_empty : Store.empty.Tidy :=
  ⟨fun _ => Cell.tidy_empty, fun _ present => absurd rfl present⟩

theorem Store.Effect.tidy (effect : Store.Effect .memory store shown after) (tidy : store.Tidy) :
    after.Tidy where
  cell := fun session => (effect.move session).tidy (tidy.cell session)
  listed := by
    intro session present
    rw [effect.sessions, List.mem_append]
    by_cases before : (store.cell session).record = none
    · right
      have opened := (effect.move session).present before present
      unfold concerning at opened
      split at opened
      · split at opened
        · rename_i same
          cases opened
          exact List.mem_singleton.mpr same.symm
        · cases opened
      · cases opened
    · exact .inl (tidy.listed session before)

/-- Every store that the in-memory backend reaches is tidy. -/
theorem tidy_of_run (run : Run (graph (machine .memory)) Store.empty trace store) : store.Tidy := by
  apply run.invariant Store.Tidy Store.tidy_empty
  intro state op after output tidy stepped
  obtain ⟨reply, _, effect, _⟩ := machine_step stepped
  exact effect.tidy tidy

theorem Store.Tidy.mem_scanResumable (tidy : store.Tidy)
    (present : (store.cell session).record = some record)
    (resumable : record.status = .ready ∨ record.status = .active ∨
      ((∃ job, record.status = .suspended job) ∧ (store.cell session).unapplied ≠ [])) :
    session ∈ store.scanResumable record.partition := by
  apply List.mem_filter.mpr
  refine ⟨tidy.listed session (by rw [present]; nofun), ?_⟩
  rw [Store.isResumable, present]
  rcases resumable with ready | active | ⟨⟨job, suspended⟩, unapplied⟩
  · simp [ready]
  · simp [active]
  · simp [suspended, unapplied]

/-- No stranded work in the in-memory backend, whatever the operations. -/
theorem no_stranded_work {trace : List Recorded} {store : Store}
    (run : Run (graph (machine .memory)) Store.empty trace store) (session : SessionId) :
    (∀ record, (store.cell session).record = some record → record.status = .idle →
      (∀ splice ∈ (store.cell session).splices, splice.claim.isConsumed = true) ∧
        (store.cell session).unapplied = []) ∧
    (∀ record, (store.cell session).record = some record →
      (store.cell session).unapplied ≠ [] → record.status ≠ .completed →
        session ∈ store.scanResumable record.partition) ∧
    ((∃ splice ∈ (store.cell session).splices, splice.claim.isConsumed = false) →
      ∃ record, (store.cell session).record = some record ∧
        (record.status = .ready ∨ record.status = .active ∨
          (∃ job, record.status = .suspended job) ∨ record.status = .completed) ∧
        (record.status = .ready ∨ record.status = .active →
          session ∈ store.scanResumable record.partition)) := by
  have tidy := tidy_of_run run
  refine ⟨?_, ?_, ?_⟩
  · intro record present idle
    obtain ⟨settled, applied⟩ := (tidy.cell session).idle record present idle
    exact ⟨Inbox.waiting_eq_nil_iff.mp settled, applied⟩
  · intro record present unapplied unfinished
    apply tidy.mem_scanResumable present
    cases status : record.status with
    | ready => exact .inl rfl
    | active => exact .inr (.inl rfl)
    | suspended job => exact .inr (.inr ⟨⟨job, rfl⟩, unapplied⟩)
    | completed => exact absurd status unfinished
    | idle => exact absurd ((tidy.cell session).idle record present status).2 unapplied
  · rintro ⟨splice, member, waits⟩
    have busy : ¬(store.cell session).Settled := by
      intro settled
      rw [Inbox.waiting_eq_nil_iff.mp settled.1 splice member] at waits
      cases waits
    cases present : (store.cell session).record with
    | none =>
      rw [((tidy.cell session).absent present).1] at member
      cases member
    | some record =>
      refine ⟨record, rfl, ?_, fun awake => tidy.mem_scanResumable present ?_⟩
      · cases status : record.status with
        | ready => exact .inl rfl
        | active => exact .inr (.inl rfl)
        | suspended job => exact .inr (.inr (.inl ⟨job, rfl⟩))
        | completed => exact .inr (.inr (.inr rfl))
        | idle => exact absurd ((tidy.cell session).idle record present status) busy
      · exact awake.imp_right .inl

/-- An idle session gets an input, is activated, suspends on a job and is woken by
its completion. -/
def wokenSession : List Op :=
  [.createIdle "s" 0 [], .appendSplice ⟨"s", .startTurn, [], "a", "wire"⟩ 0,
    .acquireActivationLease "s", .loadForActivation "s" 1,
    .checkpointAndEnqueue ⟨"s", 1, [], none, none, []⟩ ⟨"j", "s", 1, [], .persistent, none⟩ 1,
    .recordCompletionAndWake ⟨"s", 1, "j", []⟩]

theorem wokenSession_scanned :
    ∃ trace store, Run (graph (machine .memory)) Store.empty trace store ∧
      (store.cell "s").record = some ⟨0, 1, .ready, [], 1, 0⟩ ∧
      (store.cell "s").unapplied = [⟨"s", 1, "j", []⟩] ∧
      "s" ∈ store.scanResumable 0 := by
  obtain ⟨trace, store, run, present, unapplied⟩ := Run.of_checked_exec (machine .memory)
    Store.empty wokenSession (fun _ store =>
      (store.cell "s").record = some ⟨0, 1, .ready, [], 1, 0⟩ ∧
        (store.cell "s").unapplied = [⟨"s", 1, "j", []⟩]) (by decide +kernel)
  have waits : (store.cell "s").unapplied ≠ [] := by
    rw [unapplied]
    nofun
  exact ⟨trace, store, run, present, unapplied,
    (no_stranded_work run "s").2.1 _ present waits nofun⟩

/-- SQLite keeps the completion of a job whose session does not exist yet. -/
example :
    (exec (machine .sqlite) Store.empty
      [.bindDelegation "c" ⟨"j", "p", 0, [], .persistent, none⟩, .createSession "c" 0 [],
        .acquireActivationLease "c", .markCompleted ⟨"c", 0, [], none, none, []⟩ 1,
        .createIdle "p" 0 []]).any (fun result =>
          decide (result.2.status "p" = some .idle ∧ (result.2.cell "p").unapplied ≠ [] ∧
            result.2.scanResumable 0 = [])) = true := by
  decide +kernel

end DaemonNode.SessionStore
