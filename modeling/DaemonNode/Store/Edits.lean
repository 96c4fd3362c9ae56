import DaemonNode.Store.Records

/-!
# Edits of a dormant snapshot

`swapSnapshotIfDormant` lets an operator edit the snapshot of a session that is
not being run. It takes a session for dormant when its status is not active, and
a running incarnation that loaded before the edit must not commit after it: its
snapshot is computed from the old one and would overwrite the edit.

A recorded completion makes a session ready whatever its status was. When it
arrives while an incarnation is running, the session looks dormant although the
incarnation still holds the newest fence, and an edit made then is lost. This is
the only way.
-/

namespace DaemonNode.SessionStore

open Machine

/-- What the store has served up to a recorded step, the fence law of a session
there, and how the step was served. -/
theorem law_at (run : Run (graph (machine backend)) Store.empty trace store)
    (fenced : Fenced backend session trace) (parted : trace = earlier ++ recorded :: later) :
    Register.Law (registerEvents backend session earlier) (recorded.before.cell session).register ∧
      ∃ reply, recorded.output = [reply] ∧
        serve backend recorded.before recorded.input = (reply, recorded.after) := by
  obtain ⟨before, stepped⟩ := run.split parted
  rw [parted] at fenced
  exact ⟨(served_of_run before).law fenced.of_append, serve_of_step stepped⟩

/-- A commit that lands after an edit comes from an activation that loads after
the edit, unless a completion was recorded for the session between the lease of
that activation and the edit. -/
theorem edit_loaded_before_next_commit {backend : Backend} {trace : List Recorded} {store : Store}
    (run : Run (graph (machine backend)) Store.empty trace store) {session : SessionId}
    (fenced : Fenced backend session trace) {earlier between later : List Recorded}
    {swap last : Recorded} (parted : trace = earlier ++ swap :: (between ++ last :: later))
    {expected new : Blob} (edit : swap.input = .swapSnapshotIfDormant session expected new)
    (swapped : swap.output = [.ok (.flag true)]) {commit : Commit} {checkpoint : Checkpoint}
    {fence : Nat} (committed : deedsOf session last = [.committed commit checkpoint fence])
    (undisturbed : ¬Register.WokenSince fence (registerEvents backend session earlier)) :
    (∀ activation, .loaded activation ∈ deeds session earlier → activation.fence ≠ fence) ∧
      ∃ activation, .loaded activation ∈ deeds session between ∧ activation.fence = fence := by
  obtain ⟨law, reply, answered, served⟩ := law_at run fenced parted
  have regrouped : trace = (earlier ++ swap :: between) ++ last :: later := by
    rw [parted, List.append_assoc, List.cons_append]
  obtain ⟨lastLaw, lastReply, lastAnswered, lastServed⟩ := law_at run fenced regrouped
  have dormant : (swap.before.cell session).register.busy = false := by
    obtain rfl := List.singleton_inj.mp (answered.symm.trans swapped)
    refine (edit_move served ?_).dormant_of_edit
    rw [edit]
    exact decide_eq_true rfl
  -- the register sees a commit where the deeds show one
  have event : registerEvent backend session last.before last.input lastReply =
      some (.committed fence) := by
    have member : .committed commit checkpoint fence ∈ deedsOf session last := by
      rw [committed]
      exact List.mem_singleton_self _
    rw [deedsOf, lastAnswered, List.mem_filterMap] at member
    obtain ⟨given, listed, shown⟩ := member
    obtain rfl := List.mem_singleton.mp listed
    rw [registerEvent, shown]
    rfl
  have current : (last.before.cell session).register.fence ≤ fence := by
    have moved := register_move lastServed session
    rw [event] at moved
    exact moved.le_of_commit
  have allowed : Register.Allowed
      (registerEvents backend session (earlier ++ swap :: between)) (.committed fence) := by
    apply fenced _ last later regrouped
    exact mem_registerEvents.mpr
      ⟨last, List.mem_singleton_self _, lastReply, by rw [lastAnswered]; simp, event⟩
  rw [registerEvents_append] at lastLaw allowed
  have unloaded (snapshot : Blob) :
      .loaded fence snapshot ∉ registerEvents backend session earlier := by
    intro loaded
    exact undisturbed (law.wokenSince_of_edit dormant lastLaw current allowed loaded)
  refine ⟨?_, ?_⟩
  · rintro activation listed rfl
    exact unloaded activation.snapshot
      (loaded_mem_registerEvents_iff.mpr ⟨activation, listed, rfl, rfl⟩)
  · obtain ⟨snapshot, loaded⟩ := List.exists_mem_of_ne_nil _
      (List.isEmpty_eq_false_iff.mp allowed.2.1)
    rcases List.mem_append.mp (Register.mem_loads.mp loaded) with before | after
    · exact absurd before (unloaded snapshot)
    have split : registerEvents backend session (swap :: between) =
        [.edited] ++ registerEvents backend session between := by
      rw [registerEvents, List.flatMap_cons, swapped, edit]
      simp [registerEvent, deedOf, deed, created, commitOf, concerning, edits, registerEvents]
    rw [split] at after
    rcases List.mem_append.mp after with edited | between
    · cases List.mem_singleton.mp edited
    · obtain ⟨activation, listed, same, _⟩ := loaded_mem_registerEvents_iff.mp between
      exact ⟨activation, listed, same⟩

/-- A checkpoint with a snapshot and nothing else. -/
def snapshotOnly (snapshot : Blob) : Checkpoint := ⟨"s", 0, snapshot, none, none, []⟩

/-- A session is edited between two activations. -/
def editedBetween : List Op :=
  [.createSession "s" 0 [], .acquireActivationLease "s", .loadForActivation "s" 1,
    .commitTurn (snapshotOnly [1]) none 1, .swapSnapshotIfDormant "s" [1] [2],
    .acquireActivationLease "s", .loadForActivation "s" 2, .commitTurn (snapshotOnly [3]) none 2]

/-- Whether a run is fenced, its fifth step swaps and its eighth ends the turn, with
nothing recorded for the session in between. -/
def swappedThenCommitted (result : List Recorded × Store) : Bool :=
  match result.1 with
  | [_, _, _, _, swap, _, _, last] =>
    decide (Fenced .memory "s" result.1 ∧
      swap.output = [.ok (.flag true)] ∧ last.output = [.ok (.turn ⟨1, .idle⟩)] ∧
      ¬Register.WokenSince 2 (registerEvents .memory "s" (result.1.take 4)))
  | _ => false

theorem editedBetween_loaded :
    ∃ trace store, Run (graph (machine .memory)) Store.empty trace store ∧
      trace.map Step.input = editedBetween ∧ Fenced .memory "s" trace ∧
      ∃ activation, .loaded activation ∈ deeds "s" (trace.drop 5) ∧ activation.fence = 2 := by
  obtain ⟨⟨trace, store⟩, executed, checked⟩ := (Option.any_eq_true _ _).mp
    (show (exec (machine .memory) Store.empty editedBetween).any
      swappedThenCommitted = true by decide +kernel)
  have inputs := exec_inputs executed
  have run := Run.of_exec executed
  unfold swappedThenCommitted at checked
  split at checked
  · rename_i r0 r1 r2 r3 swap r5 r6 last traced
    have listed : trace = [r0, r1, r2, r3, swap, r5, r6, last] := traced
    subst listed
    obtain ⟨fenced, swapped, ended, undisturbed⟩ := of_decide_eq_true checked
    have consumed := inputs
    simp only [editedBetween, List.map_cons, List.map_nil, List.cons.injEq, and_true] at consumed
    obtain ⟨_, _, _, _, edit, _, _, commit⟩ := consumed
    have committed : deedsOf "s" last = [.committed .turn (snapshotOnly [3]) 2] := by
      rw [deedsOf, ended, commit]
      rfl
    have parted : [r0, r1, r2, r3, swap, r5, r6, last] =
      [r0, r1, r2, r3] ++ swap :: ([r5, r6] ++ last :: []) := rfl
    obtain ⟨activation, loaded, same⟩ :=
      (edit_loaded_before_next_commit run fenced parted edit swapped committed undisturbed).2
    refine ⟨_, store, run, inputs, fenced, activation, ?_, same⟩
    have rest : [r0, r1, r2, r3, swap, r5, r6, last].drop 5 = [r5, r6] ++ [last] := rfl
    rw [rest, deeds_append]
    exact List.mem_append_left _ loaded
  · cases checked

/-- An incarnation is running when a completion of an earlier job arrives. -/
def editedWhileRunning : List Op :=
  [.createSession "s" 0 [], .acquireActivationLease "s", .loadForActivation "s" 1,
    .recordCompletionAndWake ⟨"s", 0, "j", []⟩, .swapSnapshotIfDormant "s" [] [2],
    .commitTurn (snapshotOnly [1]) none 1]

/-- Whether a run is fenced, has loaded before its fifth step swaps, and ends with a
commit that overwrites what was swapped in. -/
def swappedThenOverwritten (result : List Recorded × Store) : Bool :=
  match result.1 with
  | [_, _, _, _, swap, last] =>
    decide (Fenced .memory "s" result.1 ∧
      swap.output = [.ok (.flag true)] ∧ last.output = [.ok (.turn ⟨0, .ready⟩)] ∧
      .loaded 1 [] ∈ registerEvents .memory "s" (result.1.take 4) ∧
      (swap.after.cell "s").record.map SessionRecord.snapshot = some [2] ∧
      (result.2.cell "s").record.map SessionRecord.snapshot = some [1])
  | _ => false

/-- The edit succeeds and the incarnation, which loaded before it, overwrites it. -/
theorem editedWhileRunning_lost :
    ∃ trace store, Run (graph (machine .memory)) Store.empty trace store ∧
      Fenced .memory "s" trace ∧
      ∃ earlier swap last, trace = earlier ++ swap :: ([] ++ last :: []) ∧
        swap.input = .swapSnapshotIfDormant "s" [] [2] ∧ swap.output = [.ok (.flag true)] ∧
        deedsOf "s" last = [.committed .turn (snapshotOnly [1]) 1] ∧
        (∃ activation, .loaded activation ∈ deeds "s" earlier ∧ activation.fence = 1) ∧
        (swap.after.cell "s").record.map SessionRecord.snapshot = some [2] ∧
        (store.cell "s").record.map SessionRecord.snapshot = some [1] := by
  obtain ⟨⟨trace, store⟩, executed, checked⟩ := (Option.any_eq_true _ _).mp
    (show (exec (machine .memory) Store.empty editedWhileRunning).any
      swappedThenOverwritten = true by decide +kernel)
  have inputs := exec_inputs executed
  have run := Run.of_exec executed
  unfold swappedThenOverwritten at checked
  split at checked
  · rename_i r0 r1 r2 r3 swap last traced
    have listed : trace = [r0, r1, r2, r3, swap, last] := traced
    subst listed
    obtain ⟨fenced, swapped, ended, loaded, edited, lost⟩ := of_decide_eq_true checked
    simp only [editedWhileRunning, List.map_cons, List.map_nil, List.cons.injEq, and_true] at inputs
    obtain ⟨_, _, _, _, edit, commit⟩ := inputs
    obtain ⟨activation, delivered, same, _⟩ := loaded_mem_registerEvents_iff.mp loaded
    refine ⟨_, store, run, fenced, [r0, r1, r2, r3], swap, last, rfl, edit, swapped, ?_,
      ⟨activation, delivered, same⟩, edited, lost⟩
    rw [deedsOf, ended, commit]
    rfl
  · cases checked

end DaemonNode.SessionStore
