import DaemonNode.Store.Stranded

/-!
# Which completions wait

A completion is recorded once and delivered to every activation that loads the
session until it is removed. An activation folds what its load delivered, and
whatever commit it then makes carries the result in its snapshot; but of the four
commits only the end of a turn removes the completions it has folded.

So along every history the completions that wait are those recorded and not
folded by a turn.
-/

namespace DaemonNode.SessionStore

/-- The key of a completion within its session. -/
abbrev Key := Nat × JobId

def Deed.delivers (fence : Nat) : Deed → List Key
  | .loaded activation =>
    if activation.fence = fence then activation.unapplied.map JobCompletion.key else []
  | .opened => []
  | .granted _ => []
  | .claimed _ _ => []
  | .committed _ _ _ => []

/-- The completions that the activation with a fence was given. -/
def delivered (fence : Nat) (done : List Deed) : List Key :=
  done.flatMap (Deed.delivers fence)

/-- The completions that a deed folds: those its activation was given, if it is a
commit that counts. -/
def Deed.folds (counts : Commit → Bool) (earlier : List Deed) : Deed → List Key
  | .committed commit _ fence => if counts commit then delivered fence earlier else []
  | .opened => []
  | .granted _ => []
  | .loaded _ => []
  | .claimed _ _ => []

/-- The completions folded along a history, after the deeds in `earlier`. -/
def foldedAfter (counts : Commit → Bool) (earlier : List Deed) : List Deed → List Key
  | [] => []
  | done :: rest => done.folds counts earlier ++ foldedAfter counts (earlier ++ [done]) rest

/-- The completions folded by commits that took effect. -/
def folded (done : List Deed) : List Key := foldedAfter (fun _ => true) [] done

/-- The completions folded by the end of a turn. -/
def foldedByTurn (done : List Deed) : List Key := foldedAfter (· = .turn) [] done

/-- A turn names as applied exactly the completions that its load delivered. -/
def AppliesLoad (earlier : List Deed) : Deed → Prop
  | .committed .turn checkpoint fence =>
    (∀ key ∈ checkpoint.appliedCompletions, key ∈ delivered fence earlier) ∧
      ∀ key ∈ delivered fence earlier, key ∈ checkpoint.appliedCompletions
  | _ => True

/-- Every turn of a history does so. -/
def AppliesLoads (done : List Deed) : Prop :=
  ∀ earlier last later, done = earlier ++ last :: later → AppliesLoad earlier last

instance (earlier : List Deed) : (done : Deed) → Decidable (AppliesLoad earlier done)
  | .committed .turn checkpoint fence =>
    inferInstanceAs (Decidable
      ((∀ key ∈ checkpoint.appliedCompletions, key ∈ delivered fence earlier) ∧
        ∀ key ∈ delivered fence earlier, key ∈ checkpoint.appliedCompletions))
  | .committed .suspension _ _ => isTrue trivial
  | .committed .completion _ _ => isTrue trivial
  | .committed (.park _) _ _ => isTrue trivial
  | .opened => isTrue trivial
  | .granted _ => isTrue trivial
  | .loaded _ => isTrue trivial
  | .claimed _ _ => isTrue trivial

instance (done : List Deed) : Decidable (AppliesLoads done) :=
  decidable_of_iff _ (Lists.forall_split_iff AppliesLoad).symm

theorem AppliesLoads.of_append (applies : AppliesLoads (done ++ rest)) : AppliesLoads done := by
  intro earlier last later parted
  exact applies earlier last (later ++ rest) (by rw [parted, List.append_assoc, List.cons_append])

@[simp] theorem delivered_append (fence : Nat) (done rest : List Deed) :
    delivered fence (done ++ rest) = delivered fence done ++ delivered fence rest :=
  List.flatMap_append

theorem foldedAfter_append (counts : Commit → Bool) (earlier done rest : List Deed) :
    foldedAfter counts earlier (done ++ rest) =
      foldedAfter counts earlier done ++ foldedAfter counts (earlier ++ done) rest := by
  induction done generalizing earlier with
  | nil => rw [List.nil_append, List.append_nil, foldedAfter, List.nil_append]
  | cons first done ih =>
    rw [List.cons_append, foldedAfter, foldedAfter, ih, List.append_assoc,
      List.append_assoc, List.singleton_append]

theorem foldedByTurn_concat (done : List Deed) (last : Deed) :
    foldedByTurn (done ++ [last]) = foldedByTurn done ++ last.folds (· = .turn) done := by
  rw [foldedByTurn, foldedAfter_append, List.nil_append, foldedAfter, foldedAfter, List.append_nil]
  rfl

theorem folds_subset (earlier : List Deed) (last : Deed) :
    last.folds counts earlier ⊆ last.folds (fun _ => true) earlier := by
  cases last with
  | committed commit checkpoint fence =>
    rw [Deed.folds, Deed.folds, if_pos rfl]
    split
    · exact List.Subset.refl _
    · exact List.nil_subset _
  | opened | granted | loaded | claimed => exact List.nil_subset _

theorem foldedByTurn_subset (done : List Deed) : foldedByTurn done ⊆ folded done := by
  unfold foldedByTurn folded
  generalize ([] : List Deed) = earlier
  induction done generalizing earlier with
  | nil => exact List.Subset.refl _
  | cons first done ih =>
    rw [foldedAfter, foldedAfter]
    exact List.append_subset.mpr
      ⟨List.subset_append_of_subset_left _ (folds_subset earlier first),
        List.subset_append_of_subset_right _ (ih (earlier ++ [first]))⟩

/-- After a history, the completions that wait are those recorded and not folded
by a turn; only recorded ones were ever delivered. -/
structure Cell.Waits (done : List Deed) (cell : Cell) : Prop where
  delivered_recorded : ∀ fence, ∀ key ∈ delivered fence done, key ∈ cell.inboxKeys
  folded_recorded : ∀ key ∈ foldedByTurn done, key ∈ cell.inboxKeys
  unapplied_iff : ∀ key, key ∈ cell.unapplied.map JobCompletion.key ↔
    key ∈ cell.inboxKeys ∧ key ∉ foldedByTurn done

namespace Cell.Waits

variable {done : List Deed} {cell after : Cell}

theorem empty : Cell.Waits [] Cell.empty where
  delivered_recorded := nofun
  folded_recorded := nofun
  unapplied_iff := by simp [Cell.empty]

section

variable (waits : cell.Waits done)

include waits

theorem of_eq (keys : after.inboxKeys = cell.inboxKeys)
    (unapplied : after.unapplied = cell.unapplied) :
    after.Waits done where
  delivered_recorded := by
    rw [keys]
    exact waits.delivered_recorded
  folded_recorded := by
    rw [keys]
    exact waits.folded_recorded
  unapplied_iff := by
    rw [keys, unapplied]
    exact waits.unapplied_iff

theorem silent : cell.Waits (done ++ (none : Option Deed).toList) := by
  rw [Option.toList_none, List.append_nil]
  exact waits

/-- A deed that delivers recorded completions only and folds none by a turn. -/
theorem shown (last : Deed) (delivers : ∀ fence, ∀ key ∈ last.delivers fence, key ∈ cell.inboxKeys)
    (folds : last.folds (· = .turn) done = []) :
    cell.Waits (done ++ [last]) := by
  have turns : foldedByTurn (done ++ [last]) = foldedByTurn done := by
    rw [foldedByTurn_concat, folds, List.append_nil]
  refine ⟨?_, ?_, ?_⟩
  · intro fence key member
    rw [delivered_append, List.mem_append] at member
    rcases member with older | newest
    · exact waits.delivered_recorded fence key older
    · rw [delivered, List.flatMap_singleton] at newest
      exact delivers fence key newest
  · rw [turns]
    exact waits.folded_recorded
  · rw [turns]
    exact waits.unapplied_iff

/-- A deed that delivers nothing and folds nothing by a turn. -/
theorem quiet (last : Deed) (delivers : ∀ fence, last.delivers fence = [])
    (folds : last.folds (· = .turn) done = []) :
    cell.Waits (done ++ [last]) := by
  refine waits.shown last (fun fence key member => ?_) folds
  rw [delivers fence] at member
  cases member

/-- A completion is recorded. -/
theorem applyCompletion (completion : JobCompletion) :
    (cell.applyCompletion .memory completion).2.Waits done := by
  unfold Cell.applyCompletion
  split
  · rename_i fresh
    have unrecorded : completion.key ∉ cell.inboxKeys := by
      simpa [Cell.isFresh] using fresh
    refine ⟨?_, ?_, ?_⟩
    · intro fence key member
      exact List.mem_append_left _ (waits.delivered_recorded fence key member)
    · intro key member
      exact List.mem_append_left _ (waits.folded_recorded key member)
    · intro key
      change key ∈ (cell.unapplied ++ [completion]).map JobCompletion.key ↔
        key ∈ cell.inboxKeys ++ [completion.key] ∧ key ∉ foldedByTurn done
      rw [List.map_append, List.mem_append, waits.unapplied_iff, List.mem_append,
        List.map_singleton, List.mem_singleton]
      constructor
      · rintro (⟨recorded, waiting⟩ | rfl)
        · exact ⟨.inl recorded, waiting⟩
        · exact ⟨.inr rfl, fun folded => unrecorded (waits.folded_recorded _ folded)⟩
      · rintro ⟨recorded | rfl, waiting⟩
        · exact .inl ⟨recorded, waiting⟩
        · exact .inr rfl
  · exact waits

/-- A turn removes what its load delivered. -/
theorem commitTurn (applies : AppliesLoad done (.committed .turn checkpoint fence))
    (record : SessionRecord) :
    (cell.commitTurn checkpoint record).Waits (done ++ [.committed .turn checkpoint fence]) := by
  have turns : ∀ key, key ∈ foldedByTurn (done ++ [.committed .turn checkpoint fence]) ↔
      key ∈ foldedByTurn done ∨ key ∈ checkpoint.appliedCompletions := by
    intro key
    rw [foldedByTurn_concat, List.mem_append, Deed.folds, if_pos (by decide)]
    exact or_congr_right ⟨applies.2 key, applies.1 key⟩
  refine ⟨?_, ?_, ?_⟩
  · intro holder key member
    rw [delivered_append, List.mem_append] at member
    rcases member with older | newest
    · exact waits.delivered_recorded holder key older
    · cases newest
  · intro key member
    rcases (turns key).mp member with older | applied
    · exact waits.folded_recorded key older
    · exact waits.delivered_recorded fence key (applies.1 key applied)
  · intro key
    change key ∈ (cell.unapplied.filter fun completion =>
      !checkpoint.appliedCompletions.contains completion.key).map JobCompletion.key ↔
        key ∈ cell.inboxKeys ∧ _
    rw [turns, not_or, ← and_assoc, ← waits.unapplied_iff]
    simp only [List.mem_map, List.mem_filter, Bool.not_eq_true', List.contains_eq_mem,
      decide_eq_false_iff_not]
    constructor
    · rintro ⟨completion, ⟨member, kept⟩, rfl⟩
      exact ⟨⟨completion, member, rfl⟩, kept⟩
    · rintro ⟨⟨completion, member, rfl⟩, kept⟩
      exact ⟨completion, ⟨member, kept⟩, rfl⟩

/-- Every move of the in-memory backend keeps the law. -/
theorem move (moved : Cell.Move .memory cell last after)
    (applies : ∀ shown ∈ last, AppliesLoad done shown) :
    after.Waits (done ++ last.toList) := by
  have kept {after : Cell} {history : List Deed}
      (keys : after.inboxKeys = cell.inboxKeys)
      (unapplied : after.unapplied = cell.unapplied)
      (waits : cell.Waits history) : after.Waits history :=
    waits.of_eq keys unapplied
  cases moved with
  | same => exact waits.silent
  | opened record policy input absent unfenced status =>
    cases input with
    | none | some => exact kept rfl rfl (waits.quiet _ (fun _ => rfl) rfl)
  | readied | pruned | swapped => exact kept rfl rfl waits.silent
  | appended record body present =>
    unfold Cell.readyIfIdle
    split
    · exact kept rfl rfl waits.silent
    · exact kept rfl rfl waits.silent
  | claimed | suspended | completed | parked =>
    exact kept rfl rfl (waits.quiet _ (fun _ => rfl) rfl)
  | granted record present => exact kept rfl rfl (waits.quiet _ (fun _ => rfl) rfl)
  | loaded record fence present =>
    refine kept rfl rfl (waits.shown _ ?_ rfl)
    intro holder key member
    rw [Deed.delivers] at member
    split at member
    · exact ((waits.unapplied_iff key).mp member).1
    · cases member
  | fulfilled record checkpoint fence completion present current =>
    have completed : (cell.complete checkpoint record).Waits done := waits.of_eq rfl rfl
    exact (completed.applyCompletion completion).quiet _ (fun _ => rfl) rfl
  | turned record checkpoint fence present current => exact waits.commitTurn (applies _ rfl) record
  | recorded completion present => exact (waits.applyCompletion completion).silent
  | answered row job allow completion filed =>
    have decided : (cell.decideApproval job allow).Waits done := waits.of_eq rfl rfl
    exact (decided.applyCompletion completion).silent
  | filed rows elsewhere => cases elsewhere

end

end Cell.Waits

/-- The law holds along every run of the in-memory backend in which turns name
what their loads delivered. -/
theorem waits_of_run (run : Machine.Run (Machine.graph (machine .memory)) Store.empty trace store)
    (applies : AppliesLoads (deeds session trace)) :
    (store.cell session).Waits (deeds session trace) := by
  revert applies
  apply run.history fun trace store => AppliesLoads (deeds session trace) →
    (store.cell session).Waits (deeds session trace)
  · intro _
    exact Cell.Waits.empty
  · intro trace state op after output _ ih stepped applies
    obtain ⟨reply, _, effect, shown⟩ := machine_step stepped
    rw [deeds_append, shown session] at applies ⊢
    refine (ih applies.of_append).move (effect.move session) ?_
    intro last committed
    have listed : deedOf session op reply = some last := committed
    rw [listed] at applies
    exact applies _ last [] rfl

/-- The scan takes up a suspended session for every recorded completion that was
not folded by a turn, and for nothing else. -/
theorem suspended_scanned_iff
    (run : Machine.Run (Machine.graph (machine .memory)) Store.empty trace store)
    (applies : AppliesLoads (deeds session trace))
    (present : (store.cell session).record = some record)
    (suspended : record.status = .suspended job) :
    session ∈ store.scanResumable record.partition ↔
      ∃ key ∈ (store.cell session).inboxKeys, key ∉ foldedByTurn (deeds session trace) := by
  have waits := waits_of_run run applies
  constructor
  · intro scanned
    have resumable := (List.mem_filter.mp scanned).2
    rw [Store.isResumable, present] at resumable
    have unapplied : (store.cell session).unapplied ≠ [] := by
      simpa [suspended] using resumable
    obtain ⟨completion, member⟩ := List.exists_mem_of_ne_nil _ unapplied
    exact ⟨completion.key, (waits.unapplied_iff _).mp (List.mem_map_of_mem member)⟩
  · rintro ⟨key, waiting⟩
    obtain ⟨completion, member, _⟩ := List.mem_map.mp ((waits.unapplied_iff key).mpr waiting)
    exact (tidy_of_run run).mem_scanResumable present
      (.inr (.inr ⟨⟨job, suspended⟩, List.ne_nil_of_mem member⟩))

end DaemonNode.SessionStore
