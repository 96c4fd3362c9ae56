import DaemonNode.Store.Moves

/-!
# Redelivered completions

A completion is named by its session, epoch and job, and a second delivery of the
same one is meant to change nothing. Both backends test for a duplicate when
they record: the in-memory one asks a set of keys that only grows, the SQLite one
relies on the row of the first delivery being there. A turn that has folded a
completion deletes its row, so in SQLite the memory of a completion lasts as long
as the completion waits, and a delivery after that turn counts as a new one.
-/

namespace DaemonNode.SessionStore

open Machine

/-- Whether a completion with this key would be a duplicate. -/
def Cell.Knows (backend : Backend) (key : Nat × JobId) (cell : Cell) : Prop :=
  match backend with
  | .memory => key ∈ cell.inboxKeys
  | .sqlite => key ∈ cell.unapplied.map JobCompletion.key

variable {checkpoint : Checkpoint}

namespace Cell

variable {cell after : Cell}

theorem isFresh_eq_false_iff :
    cell.isFresh backend completion = false ↔ cell.Knows backend completion.key := by
  cases backend with
  | memory | sqlite => simp [isFresh, Knows]

/-- A duplicate changes nothing. -/
theorem applyCompletion_of_knows (known : cell.Knows backend completion.key) :
    cell.applyCompletion backend completion = (false, cell) := by
  unfold applyCompletion
  rw [isFresh_eq_false_iff.mpr known]
  rfl

theorem isFresh_of_not_knows (unknown : ¬cell.Knows backend completion.key) :
    cell.isFresh backend completion = true := by
  rw [← isFresh_eq_false_iff, Bool.not_eq_false] at unknown
  exact unknown

theorem applyCompletion_of_not_knows (unknown : ¬cell.Knows backend completion.key) :
    cell.applyCompletion backend completion =
      (true, (cell.applyCompletion backend completion).2) := by
  unfold applyCompletion
  rw [if_pos (isFresh_of_not_knows unknown)]

/-- What is recorded is known from then on. -/
theorem knows_applyCompletion (cell : Cell) (completion : JobCompletion) :
    (cell.applyCompletion backend completion).2.Knows backend completion.key := by
  by_cases known : cell.Knows backend completion.key
  · rw [applyCompletion_of_knows known]
    exact known
  · unfold applyCompletion
    rw [if_pos (isFresh_of_not_knows known)]
    cases backend with
    | memory => exact List.mem_append_right _ (List.mem_singleton_self _)
    | sqlite => exact List.mem_map_of_mem (List.mem_append_right _ (List.mem_singleton_self _))

section

variable (known : cell.Knows backend key)

include known

theorem Knows.of_subset (keys : cell.inboxKeys ⊆ after.inboxKeys)
    (unapplied : cell.unapplied ⊆ after.unapplied) :
    after.Knows backend key := by
  cases backend with
  | memory => exact keys known
  | sqlite => exact List.map_subset _ unapplied known

/-- A cell with the same completions knows the same ones. -/
theorem Knows.of_eq (keys : after.inboxKeys = cell.inboxKeys)
    (unapplied : after.unapplied = cell.unapplied) :
    after.Knows backend key := by
  apply known.of_subset
  · rw [keys]
    exact List.Subset.refl _
  · rw [unapplied]
    exact List.Subset.refl _

theorem Knows.applyCompletion (completion : JobCompletion) :
    (cell.applyCompletion backend completion).2.Knows backend key := by
  unfold Cell.applyCompletion
  split
  · refine known.of_subset ?_ (List.subset_append_left _ _)
    cases backend with
    | memory => exact List.subset_append_left _ _
    | sqlite => exact List.Subset.refl _
  · exact known

theorem Knows.commitTurn (unlisted : backend = .sqlite → key ∉ checkpoint.appliedCompletions)
    (record : SessionRecord) :
    (cell.commitTurn checkpoint record).Knows backend key := by
  cases backend with
  | memory => exact known
  | sqlite =>
    obtain ⟨completion, member, rfl⟩ := List.mem_map.mp known
    refine List.mem_map_of_mem (List.mem_filter.mpr ⟨member, ?_⟩)
    simpa using unlisted rfl

end

/-- Only a turn of the SQLite backend that lists a completion forgets it. -/
theorem Move.knows (moved : Move backend cell done after) (known : cell.Knows backend key)
    (unlisted : backend = .sqlite → ∀ checkpoint fence,
      done = some (.committed .turn checkpoint fence) → key ∉ checkpoint.appliedCompletions) :
    after.Knows backend key := by
  cases moved with
  | opened record policy input absent unfenced status =>
    cases input with
    | none | some => exact known.of_eq rfl rfl
  | appended record body present =>
    unfold readyIfIdle
    split
    · exact known.of_eq rfl rfl
    · exact known.of_eq rfl rfl
  | turned record checkpoint fence present current =>
    exact known.commitTurn (fun sqlite => unlisted sqlite checkpoint fence rfl) record
  | fulfilled record checkpoint fence completion present current =>
    have completed : (cell.complete checkpoint record).Knows backend key := known.of_eq rfl rfl
    exact completed.applyCompletion completion
  | recorded completion present => exact known.applyCompletion completion
  | answered row job allow completion filed =>
    have decided : (cell.decideApproval job allow).Knows backend key := known.of_eq rfl rfl
    exact decided.applyCompletion completion
  | _ => exact known.of_eq rfl rfl

end Cell

namespace Store

/-- The store to which an operation that records a completion applies it: a
session that ends has been written, and an approval has its decision. -/
def written (store : Store) : Op → Store
  | .markCompleted checkpoint _ =>
    match (store.cell checkpoint.sessionId).record with
    | none => store
    | some record =>
      store.setCell checkpoint.sessionId
        ((store.cell checkpoint.sessionId).complete checkpoint record)
  | .answerApproval session job allow _ _ =>
    store.setCell session ((store.cell session).decideApproval job allow)
  | _ => store

variable {backend : Backend} {store after : Store}
variable {completion : JobCompletion}

/-- Writing it leaves every completion in place. -/
theorem written_completions (store : Store) (op : Op) (session : SessionId) :
    ((store.written op).cell session).inboxKeys = (store.cell session).inboxKeys ∧
      ((store.written op).cell session).unapplied = (store.cell session).unapplied := by
  unfold written
  split
  · rename_i checkpoint _
    split
    · exact ⟨rfl, rfl⟩
    · by_cases own : session = checkpoint.sessionId
      · subst own
        rw [setCell_cell_self]
        exact ⟨rfl, rfl⟩
      · rw [setCell_cell_of_ne _ _ own]
        exact ⟨rfl, rfl⟩
  · rename_i id job allow _ _
    by_cases own : session = id
    · subst own
      rw [setCell_cell_self]
      exact ⟨rfl, rfl⟩
    · rw [setCell_cell_of_ne _ _ own]
      exact ⟨rfl, rfl⟩
  · exact ⟨rfl, rfl⟩

/-- Writing it gives no other session a new status. -/
theorem status_written_of_ne
    (other : ∀ checkpoint fence, op = .markCompleted checkpoint fence →
      session ≠ checkpoint.sessionId) :
    (store.written op).status session = store.status session := by
  cases op with
  | markCompleted checkpoint fence =>
    simp only [written]
    split
    · rfl
    · rw [status, setCell_cell_of_ne _ _ (other checkpoint fence rfl)]
      rfl
  | answerApproval id job allow allowPermanent reason =>
    by_cases own : session = id
    · subst own
      rw [status, written, setCell_cell_self]
      rfl
    · rw [status, written, setCell_cell_of_ne _ _ own]
      rfl
  | _ => rfl

theorem written_wakeOutbox (store : Store) (op : Op) :
    (store.written op).wakeOutbox = store.wakeOutbox := by
  unfold written
  split
  · split
    · rfl
    · rfl
  · rfl
  · rfl

/-- What is applied to the store that is written; a duplicate queues no wake. -/
structure Applies (backend : Backend) (completion : JobCompletion) (written after : Store) :
    Prop where
  cell : after.cell = (written.setCell completion.sessionId
    ((written.cell completion.sessionId).applyCompletion backend completion).2).cell
  wakes : (written.cell completion.sessionId).Knows backend completion.key →
    after.wakeOutbox = written.wakeOutbox

/-- What comes after may touch other tables. -/
theorem Applies.touch {written last : Store} (applied : Applies backend completion written after)
    (cell : last.cell = after.cell) (wakes : last.wakeOutbox = after.wakeOutbox) :
    Applies backend completion written last where
  cell := cell.trans applied.cell
  wakes := fun known => wakes.trans (applied.wakes known)

theorem notify_wakeOutbox (checkpoint : Checkpoint) (store : Store) :
    (store.notify checkpoint).wakeOutbox = store.wakeOutbox := by
  unfold notify
  split
  · rfl
  · split
    · rfl
    · rfl

theorem applies_applyAndWake (backend : Backend) (completion : JobCompletion) (store : Store) :
    Applies backend completion store (store.applyAndWake backend completion) where
  cell := (show Frame .dequeueWake _ _ from frame_applyAndWake backend completion store).cell
  wakes := by
    intro known
    rw [applyAndWake, Cell.applyCompletion_of_knows known]

theorem recordCompletionAndWake_applies
    (present : (store.cell completion.sessionId).record = some record) :
    Applies backend completion store (store.recordCompletionAndWake backend completion).2 := by
  simp only [recordCompletionAndWake, withRecord, present]
  by_cases known : (store.cell completion.sessionId).Knows backend completion.key
  · rw [Cell.applyCompletion_of_knows known]
    refine ⟨?_, fun _ => rfl⟩
    rw [Cell.applyCompletion_of_knows known]
    exact (Function.update_eq_self completion.sessionId store.cell).symm
  · rw [Cell.applyCompletion_of_not_knows known]
    simp only [takeFault]
    split
    · exact ⟨rfl, fun duplicate => absurd duplicate known⟩
    · exact ⟨rfl, fun duplicate => absurd duplicate known⟩

theorem markCompleted_applies
    (recorded : store.records backend (.markCompleted checkpoint fence) = some completion) :
    Applies backend completion (store.written (.markCompleted checkpoint fence))
      (store.markCompleted backend checkpoint fence).2 := by
  simp only [records] at recorded
  split at recorded
  · cases recorded
  rename_i record present
  split at recorded
  · cases recorded
  rename_i current
  simp only [written, markCompleted, checkFence, withRecord, present, if_neg current]
  rw [← fulfilment_setCell present] at recorded
  rw [fulfil_eq, recorded]
  have notified (store : Store) : Frame .dequeueWake _ store := frame_notify checkpoint store
  exact (applies_applyAndWake _ _ _).touch (notified _).cell (notify_wakeOutbox checkpoint _)

section

variable (recorded : store.records backend op = some completion)

include recorded

theorem records_applies (served : serve backend store op = (reply, after)) :
    Applies backend completion (store.written op) after := by
  cases op with
  | recordCompletionAndWake delivered =>
    cases served
    obtain ⟨record, present, rfl⟩ := Option.map_eq_some_iff.mp recorded
    exact recordCompletionAndWake_applies present
  | markCompleted checkpoint fence =>
    cases served
    exact markCompleted_applies recorded
  | answerApproval session job allow allowPermanent reason =>
    cases served
    simp only [records] at recorded
    split at recorded
    · cases recorded
    rename_i row found
    split at recorded
    · cases recorded
    rename_i undecided
    cases recorded
    simp only [written, answerApproval, found, undecided]
    exact applies_applyAndWake backend _ _
  | _ => cases recorded

theorem cell_of_duplicate (known : (store.cell completion.sessionId).Knows backend completion.key)
    (served : serve backend store op = (reply, after)) :
    after.cell = (store.written op).cell ∧ after.wakeOutbox = store.wakeOutbox := by
  have applied := records_applies recorded served
  obtain ⟨keys, unapplied⟩ := written_completions store op completion.sessionId
  have still := known.of_eq keys unapplied
  constructor
  · rw [applied.cell, Cell.applyCompletion_of_knows still]
    exact Function.update_eq_self completion.sessionId _
  · exact (applied.wakes still).trans (written_wakeOutbox store op)

end

end Store

/-- The turns of a history that have applied a completion. -/
def Applied (key : Nat × JobId) (done : List Deed) : Prop :=
  ∃ checkpoint fence, .committed .turn checkpoint fence ∈ done ∧ key ∈ checkpoint.appliedCompletions

/-- A completion recorded in a run stays known: in memory for ever, in SQLite
until a turn applies it. -/
theorem knows_of_run (run : Run (graph (machine backend)) Store.empty trace store)
    (parted : trace = earlier ++ first :: later)
    (recorded : first.before.records backend first.input = some completion)
    (kept : backend = .sqlite → ¬Applied completion.key (deeds completion.sessionId later)) :
    (store.cell completion.sessionId).Knows backend completion.key := by
  induction run generalizing later with
  | nil => simp at parted
  | @snoc steps reached op after output before stepped ih =>
    obtain ⟨reply, _, effect, shown⟩ := machine_step stepped
    rcases Lists.concat_eq_append_cons_iff.mp parted with
      ⟨rfl, rfl, rfl⟩ | ⟨shorter, sooner, rfl⟩
    · have served : serve backend reached op = (_, after) :=
        Prod.ext rfl (Prod.mk.inj (Option.some.inj stepped)).1
      rw [(Store.records_applies recorded served).cell, Store.setCell_cell_self]
      exact Cell.knows_applyCompletion _ completion
    · rw [deeds_append, shown] at kept
      refine (effect.move completion.sessionId).knows (ih sooner fun sqlite applied => ?_) ?_
      · obtain ⟨checkpoint, fence, member, listed⟩ := applied
        exact kept sqlite ⟨checkpoint, fence, List.mem_append_left _ member, listed⟩
      · intro sqlite checkpoint fence done listed
        refine kept sqlite ⟨checkpoint, fence, List.mem_append_right _ ?_, listed⟩
        rw [deedOf, done]
        exact List.mem_singleton_self _

/-- A completion that was recorded before changes no waiting completion, no
status and no wake, unless the SQLite backend has seen a turn apply it since. The
session that ends with the second delivery is completed all the same. -/
theorem redelivery_changes_nothing {backend : Backend} {trace : List Recorded} {store : Store}
    (run : Run (graph (machine backend)) Store.empty trace store) {earlier later : List Recorded}
    {first : Recorded} (parted : trace = earlier ++ first :: later)
    {completion again : JobCompletion}
    (recorded : first.before.records backend first.input = some completion)
    (kept : backend = .sqlite → ¬Applied completion.key (deeds completion.sessionId later))
    {op : Op} (redelivered : store.records backend op = some again)
    (sameSession : again.sessionId = completion.sessionId) (sameKey : again.key = completion.key) :
    (∀ session,
      ((serve backend store op).2.cell session).unapplied = (store.cell session).unapplied) ∧
    (serve backend store op).2.wakeOutbox = store.wakeOutbox ∧
    (∀ session,
      (∀ checkpoint fence, op = .markCompleted checkpoint fence → session ≠ checkpoint.sessionId) →
      (serve backend store op).2.status session = store.status session) ∧
    ∀ checkpoint fence, op = .markCompleted checkpoint fence →
      (serve backend store op).2.status checkpoint.sessionId = some .completed := by
  have known := knows_of_run run parted recorded kept
  rw [← sameSession, ← sameKey] at known
  obtain ⟨cell, wakes⟩ := Store.cell_of_duplicate redelivered known
    (Prod.eta (serve backend store op)).symm
  refine ⟨fun session => ?_, wakes, fun session other => ?_, ?_⟩
  · rw [cell]
    exact (Store.written_completions store op session).2
  · rw [Store.status, cell]
    exact Store.status_written_of_ne other
  · rintro checkpoint fence rfl
    rw [Store.status, cell]
    cases present : (store.cell checkpoint.sessionId).record with
    | none => simp [Store.records, present] at redelivered
    | some record =>
      simp only [Store.written, present, Store.setCell_cell_self]
      rfl

/-- A session suspends on a job, is woken by its completion and ends the turn that
has applied it. -/
def appliedJob : List Op :=
  [.createSession "s" 0 [], .acquireActivationLease "s", .loadForActivation "s" 1,
    .checkpointAndEnqueue ⟨"s", 1, [], none, none, []⟩ ⟨"j", "s", 1, [], .persistent, none⟩ 1,
    .recordCompletionAndWake ⟨"s", 1, "j", []⟩, .acquireActivationLease "s",
    .loadForActivation "s" 2,
    .commitTurn ⟨"s", 1, [], none, none, [(1, "j")]⟩ none 2]

/-- Whether the fifth step of a run has recorded a completion. -/
def recordedFifth (backend : Backend) (completion : JobCompletion) (trace : List Recorded) :
    Bool :=
  match trace.drop 4 with
  | [] => false
  | first :: _ => first.before.records backend first.input = some completion

theorem split_of_recordedFifth (found : recordedFifth backend completion trace = true) :
    ∃ earlier first, trace = earlier ++ first :: trace.drop 5 ∧
      first.before.records backend first.input = some completion := by
  unfold recordedFifth at found
  split at found
  · cases found
  rename_i first later dropped
  refine ⟨trace.take 4, first, ?_, of_decide_eq_true found⟩
  rw [← List.tail_drop, dropped, List.tail_cons, ← dropped, List.take_append_drop]

/-- A delivery is repeated in memory after the turn that has applied it, and in SQLite
while it waits for that turn. -/
theorem appliedJob_redelivered :
    (∃ trace store, Run (graph (machine .memory)) Store.empty trace store ∧
      store.status "s" = some .idle ∧
      (serve .memory store (.recordCompletionAndWake ⟨"s", 1, "j", []⟩)).2.status "s" =
        some .idle) ∧
    ∃ trace store, Run (graph (machine .sqlite)) Store.empty trace store ∧
      (store.cell "s").unapplied = [⟨"s", 1, "j", []⟩] ∧
      ((serve .sqlite store (.recordCompletionAndWake ⟨"s", 1, "j", []⟩)).2.cell "s").unapplied =
        [⟨"s", 1, "j", []⟩] ∧
      (serve .sqlite store (.recordCompletionAndWake ⟨"s", 1, "j", []⟩)).2.wakeOutbox =
        store.wakeOutbox := by
  constructor
  · obtain ⟨trace, store, run, found, idle, redelivered⟩ := Run.of_checked_exec (machine .memory)
      Store.empty appliedJob (fun trace store =>
        recordedFifth .memory ⟨"s", 1, "j", []⟩ trace = true ∧ store.status "s" = some .idle ∧
          store.records .memory (.recordCompletionAndWake ⟨"s", 1, "j", []⟩) =
            some ⟨"s", 1, "j", []⟩) (by decide +kernel)
    obtain ⟨earlier, first, parted, recorded⟩ := split_of_recordedFifth found
    have unchanged := redelivery_changes_nothing run parted recorded nofun redelivered rfl rfl
    exact ⟨trace, store, run, idle, (unchanged.2.2.1 "s" nofun).trans idle⟩
  · obtain ⟨trace, store, run, found, waiting, redelivered, quiet⟩ :=
      Run.of_checked_exec (machine .sqlite) Store.empty (appliedJob.take 7) (fun trace store =>
        recordedFifth .sqlite ⟨"s", 1, "j", []⟩ trace = true ∧
          (store.cell "s").unapplied = [⟨"s", 1, "j", []⟩] ∧
          store.records .sqlite (.recordCompletionAndWake ⟨"s", 1, "j", []⟩) =
            some ⟨"s", 1, "j", []⟩ ∧
          (deeds "s" (trace.drop 5)).all (fun | .committed .. => false | _ => true) = true)
        (by decide +kernel)
    obtain ⟨earlier, first, parted, recorded⟩ := split_of_recordedFifth found
    have kept : ¬Applied (1, "j") (deeds "s" (trace.drop 5)) := by
      rintro ⟨checkpoint, fence, member, _⟩
      cases List.all_eq_true.mp quiet _ member
    obtain ⟨unapplied, wakes, _⟩ :=
      redelivery_changes_nothing run parted recorded (fun _ => kept) redelivered rfl rfl
    exact ⟨trace, store, run, waiting, (unapplied "s").trans waiting, wakes⟩

/-- In SQLite the same delivery wakes the session again. -/
theorem appliedJob_redelivered_in_sqlite :
    ∃ trace store, Run (graph (machine .sqlite)) Store.empty trace store ∧
      (∃ earlier first, trace = earlier ++ first :: trace.drop 5 ∧
        first.before.records .sqlite first.input = some ⟨"s", 1, "j", []⟩) ∧
      store.records .sqlite (.recordCompletionAndWake ⟨"s", 1, "j", []⟩) = some ⟨"s", 1, "j", []⟩ ∧
      (store.cell "s").unapplied = [] ∧ store.status "s" = some .idle ∧
      store.wakeOutbox = ["s"] ∧
      ∃ after, serve .sqlite store (.recordCompletionAndWake ⟨"s", 1, "j", []⟩) =
          (.ok .done, after) ∧
        (after.cell "s").unapplied = [⟨"s", 1, "j", []⟩] ∧ after.status "s" = some .ready ∧
        after.wakeOutbox = ["s", "s"] := by
  obtain ⟨trace, store, run, found, redelivered, unapplied, idle, wakes, reply, again⟩ :=
    Run.of_checked_exec (machine .sqlite) Store.empty appliedJob (fun trace store =>
      let redelivery := serve .sqlite store (.recordCompletionAndWake ⟨"s", 1, "j", []⟩)
      recordedFifth .sqlite ⟨"s", 1, "j", []⟩ trace = true ∧
        store.records .sqlite (.recordCompletionAndWake ⟨"s", 1, "j", []⟩) =
          some ⟨"s", 1, "j", []⟩ ∧
        (store.cell "s").unapplied = [] ∧ store.status "s" = some .idle ∧
        store.wakeOutbox = ["s"] ∧ redelivery.1 = .ok .done ∧
        (redelivery.2.cell "s").unapplied = [⟨"s", 1, "j", []⟩] ∧
        redelivery.2.status "s" = some .ready ∧ redelivery.2.wakeOutbox = ["s", "s"])
      (by decide +kernel)
  exact ⟨trace, store, run, split_of_recordedFifth found, redelivered, unapplied, idle, wakes,
    _, Prod.ext reply rfl, again⟩

end DaemonNode.SessionStore
