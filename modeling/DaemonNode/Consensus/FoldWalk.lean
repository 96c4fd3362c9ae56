import DaemonNode.Lib.Machine

/-!
# The fold-walk schedule

A walk folds windows strictly in ascending order while their reads complete in
any order. Reads run ahead of the fold, at most `inFlight` of them outstanding;
a completed window waits until every earlier one has folded. Each completion
is one slice: it folds the run that has become contiguous, refills the reads,
and seals the walk with the last fold.
-/

namespace DaemonNode

open Machine
open List (range range' mem_range)

/-- What one slice does, in order. -/
structure SliceActions where
  fold : List Nat
  issue : List Nat
  seals : Bool
  deriving DecidableEq, Repr

/-- A completion for a window that is not outstanding. -/
structure UnexpectedCompletion where
  ordinal : Nat
  deriving DecidableEq, Repr

/-- The error text of an unexpected completion. -/
def UnexpectedCompletion.message (unexpected : UnexpectedCompletion) : String :=
  "completion for window " ++ toString unexpected.ordinal ++ " that is not outstanding"

/-- The state of a walk. -/
structure FoldWalk where
  total : Nat
  /-- Bound on outstanding reads. -/
  (inFlight nextIssue nextFold : Nat)
  /-- Windows read but not yet foldable, ascending. -/
  pending : List Nat
  sealed : Bool
  deriving DecidableEq, Repr

namespace FoldWalk

/-- A walk over `total` windows; a bound of zero is raised to one. -/
def new (total inFlight : Nat) : FoldWalk :=
  { total := total
    inFlight := max inFlight 1
    nextIssue := 0
    nextFold := 0
    pending := []
    sealed := false }

/-- The loop that issues reads while there is room. -/
def issueReads (total : Nat) : Nat → Nat → List Nat
  | 0, _ => []
  | room + 1, next =>
    if next < total then next :: issueReads total room (next + 1) else []

/-- Reads issued but not completed. -/
def outstanding (walk : FoldWalk) : Nat :=
  walk.nextIssue - walk.nextFold - walk.pending.length

/-- Issue reads up to the bound. -/
def issueUpToLimit (walk : FoldWalk) : List Nat × FoldWalk :=
  let issued := issueReads walk.total (walk.inFlight - walk.outstanding) walk.nextIssue
  (issued, { walk with nextIssue := walk.nextIssue + issued.length })

/-- The opening slice. An empty walk seals at once. -/
def start (walk : FoldWalk) : SliceActions × FoldWalk :=
  if walk.total = 0 ∧ walk.sealed = false then (⟨[], [], true⟩, { walk with sealed := true })
  else
    let issued := walk.issueUpToLimit
    (⟨[], issued.1, false⟩, issued.2)

/-- The loop that takes the contiguous run starting at `next` off the completed
windows. -/
def foldRun : Nat → List Nat → List Nat × List Nat
  | _, [] => ([], [])
  | next, window :: later =>
    if window = next then
      let run := foldRun (next + 1) later
      (next :: run.1, run.2)
    else ([], window :: later)

/-- One read completed. -/
def onCompletion (walk : FoldWalk) (ordinal : Nat) :
    Except UnexpectedCompletion SliceActions × FoldWalk :=
  if ordinal < walk.nextFold ∨ walk.nextIssue ≤ ordinal ∨ ordinal ∈ walk.pending then
    (.error ⟨ordinal⟩, walk)
  else
    let run := foldRun walk.nextFold (walk.pending.orderedInsert (· ≤ ·) ordinal)
    let folded :=
      { walk with nextFold := walk.nextFold + run.1.length, pending := run.2 }
    let issued := folded.issueUpToLimit
    let seals := decide (folded.nextFold = folded.total) && !folded.sealed
    (.ok ⟨run.1, issued.1, seals⟩, { issued.2 with sealed := folded.sealed || seals })

/-- The walk as a machine: it is given completions and answers each with a
slice or a refusal. -/
def step : StepFunction FoldWalk Nat (Except UnexpectedCompletion SliceActions) :=
  fun walk ordinal => some ((walk.onCompletion ordinal).2, [(walk.onCompletion ordinal).1])

@[simp] theorem issueUpToLimit_total (walk : FoldWalk) :
    walk.issueUpToLimit.2.total = walk.total := rfl

@[simp] theorem issueUpToLimit_inFlight (walk : FoldWalk) :
    walk.issueUpToLimit.2.inFlight = walk.inFlight := rfl

@[simp] theorem issueUpToLimit_nextFold (walk : FoldWalk) :
    walk.issueUpToLimit.2.nextFold = walk.nextFold := rfl

@[simp] theorem issueUpToLimit_pending (walk : FoldWalk) :
    walk.issueUpToLimit.2.pending = walk.pending := rfl

theorem issueReads_eq (total room next : Nat) :
    issueReads total room next = range' next (min room (total - next)) := by
  induction room generalizing next with
  | zero => simp [issueReads]
  | succ room ih =>
    rw [issueReads]
    split
    · rename_i inside
      rw [ih, show min (room + 1) (total - next) = min room (total - (next + 1)) + 1 by omega]
      rfl
    · rename_i outside
      rw [show min (room + 1) (total - next) = 0 by omega]
      rfl

/-- The run is the longest contiguous one at the front. -/
theorem foldRun_spec (next : Nat) (windows : List Nat) :
    (foldRun next windows).1 = range' next (foldRun next windows).1.length ∧
      windows = (foldRun next windows).1 ++ (foldRun next windows).2 ∧
      (foldRun next windows).2.head? ≠ some (next + (foldRun next windows).1.length) := by
  induction windows generalizing next with
  | nil => simp [foldRun]
  | cons window later ih =>
    rw [foldRun]
    split
    · rename_i same
      obtain ⟨run, split, stops⟩ := ih (next + 1)
      refine ⟨?_, ?_, ?_⟩
      · rw [List.length_cons, List.range'_succ, ← run]
      · rw [same, List.cons_append, ← split]
      · have shifted : next + ((foldRun (next + 1) later).1.length + 1) =
            next + 1 + (foldRun (next + 1) later).1.length := by
          omega
        rw [List.length_cons, shifted]
        exact stops
    · rename_i different
      simpa using different

variable {windows : List Nat} {actions : SliceActions} {after : FoldWalk}

/-- From ascending windows the run leaves those that are past a gap. -/
theorem foldRun_ascending (ascending : windows.Pairwise (· < ·))
    (above : ∀ window ∈ windows, next ≤ window) :
    (foldRun next windows).2.Pairwise (· < ·) ∧
      (∀ window ∈ (foldRun next windows).2, next + (foldRun next windows).1.length < window) ∧
      ∀ window, window < next + (foldRun next windows).1.length ∨
          window ∈ (foldRun next windows).2 ↔
        window < next ∨ window ∈ windows := by
  obtain ⟨run, split, stops⟩ := foldRun_spec next windows
  generalize (foldRun next windows).1 = folded at *
  generalize (foldRun next windows).2 = rest at *
  rw [split, List.pairwise_append] at ascending
  obtain ⟨_, restAscending, apart⟩ := ascending
  have folds : ∀ window, window ∈ folded ↔
      next ≤ window ∧ window < next + folded.length := by
    intro window
    rw [run, List.mem_range'_1, List.length_range']
  have notBelow : ∀ window ∈ rest, next + folded.length ≤ window := by
    intro window member
    by_cases empty : folded.length = 0
    · rw [empty]
      exact above window (split ▸ List.mem_append_right _ member)
    · have last := apart (next + folded.length - 1) ((folds _).mpr (by omega)) window member
      omega
  refine ⟨restAscending, ?_, ?_⟩
  · intro window member
    refine lt_of_le_of_ne (notBelow window member) fun same => ?_
    cases rest with
    | nil => simp at member
    | cons first later =>
      rcases List.mem_cons.mp member with rfl | member
      · exact stops (by rw [same]; rfl)
      · have smaller := (List.pairwise_cons.mp restAscending).1 window member
        have := notBelow first List.mem_cons_self
        omega
  · intro window
    rw [split, List.mem_append, folds]
    grind

/-- The invariant of a started walk. -/
structure Valid (walk : FoldWalk) : Prop where
  positive : 0 < walk.inFlight
  ascending : walk.pending.Pairwise (· < ·)
  inside : ∀ window ∈ walk.pending, walk.nextFold < window ∧ window < walk.nextIssue
  behind : walk.nextFold ≤ walk.nextIssue
  bounded : walk.nextIssue ≤ walk.total
  room : walk.nextFold + walk.pending.length ≤ walk.nextIssue
  limited : walk.nextIssue ≤ walk.nextFold + walk.pending.length + walk.inFlight
  filled : walk.nextIssue < walk.total →
    walk.nextIssue = walk.nextFold + walk.pending.length + walk.inFlight
  sealed_iff : walk.sealed = true ↔ walk.nextFold = walk.total

/-- Strictly ascending numbers inside an interval are at most as many as it
has. -/
theorem length_le_of_ascending (ascending : windows.Pairwise (· < ·))
    (inside : ∀ window ∈ windows, low ≤ window ∧ window < high) :
    windows.length ≤ high - low := by
  have distinct : windows.Nodup := ascending.imp ne_of_lt
  have subset : windows ⊆ range' low (high - low) := by
    intro window member
    have := inside window member
    rw [List.mem_range'_1]
    omega
  simpa using (List.subperm_of_subset distinct subset).length_le

/-- Refilling reads makes a walk valid that is valid but for its reads. -/
theorem issueUpToLimit_spec (walk : FoldWalk) (bounded : walk.nextIssue ≤ walk.total)
    (room : walk.nextFold + walk.pending.length ≤ walk.nextIssue)
    (limited : walk.nextIssue ≤ walk.nextFold + walk.pending.length + walk.inFlight) :
    let issued := walk.issueUpToLimit
    issued.1 = range' walk.nextIssue (issued.2.nextIssue - walk.nextIssue) ∧
      walk.nextIssue ≤ issued.2.nextIssue ∧
      issued.2.nextIssue =
        min walk.total (walk.nextFold + walk.pending.length + walk.inFlight) := by
  simp only [issueUpToLimit, issueReads_eq, List.length_range', outstanding]
  refine ⟨?_, Nat.le_add_right _ _, ?_⟩
  · rw [Nat.add_sub_cancel_left]
  · omega

/-- What an accepted completion does. -/
structure Completes (walk : FoldWalk) (ordinal : Nat) (actions : SliceActions)
    (after : FoldWalk) : Prop where
  total : after.total = walk.total
  inFlight : after.inFlight = walk.inFlight
  fold : actions.fold = range' walk.nextFold (after.nextFold - walk.nextFold)
  advances : walk.nextFold ≤ after.nextFold
  issue : actions.issue = range' walk.nextIssue (after.nextIssue - walk.nextIssue)
  issues : walk.nextIssue ≤ after.nextIssue
  completed : ∀ window, window < after.nextFold ∨ window ∈ after.pending ↔
    (window < walk.nextFold ∨ window ∈ walk.pending) ∨ window = ordinal
  count : after.nextFold + after.pending.length = walk.nextFold + walk.pending.length + 1
  seals : actions.seals = true ↔ after.nextFold = walk.total
  unsealed : walk.sealed = false

section Completion

variable {walk : FoldWalk}

/-- A completion for a window that is not outstanding is refused and changes
nothing. -/
theorem onCompletion_refused
    (unexpected : ordinal < walk.nextFold ∨ walk.nextIssue ≤ ordinal ∨ ordinal ∈ walk.pending) :
    walk.onCompletion ordinal = (.error ⟨ordinal⟩, walk) :=
  if_pos unexpected

theorem insert_ascending (ascending : windows.Pairwise (· < ·)) (fresh : ordinal ∉ windows) :
    (windows.orderedInsert (· ≤ ·) ordinal).Pairwise (· < ·) := by
  have inserted := List.perm_orderedInsert (· ≤ ·) ordinal windows
  have distinct : (windows.orderedInsert (· ≤ ·) ordinal).Nodup :=
    inserted.nodup_iff.mpr (List.nodup_cons.mpr ⟨fresh, ascending.imp ne_of_lt⟩)
  have sorted := (ascending.imp le_of_lt).orderedInsert ordinal windows
  exact (sorted.and distinct).imp fun both => lt_of_le_of_ne both.1 both.2

/-- A completion for an outstanding window is accepted and keeps the walk
valid. -/
theorem onCompletion_accepted (valid : walk.Valid)
    (expected : ¬(ordinal < walk.nextFold ∨ walk.nextIssue ≤ ordinal ∨ ordinal ∈ walk.pending)) :
    ∃ actions after, walk.onCompletion ordinal = (.ok actions, after) ∧
      Completes walk ordinal actions after ∧ after.Valid := by
  have outstanding := expected
  push Not at outstanding
  obtain ⟨notFolded, issued, fresh⟩ := outstanding
  have unsealed : walk.sealed = false := by
    rw [← Bool.not_eq_true, valid.sealed_iff]
    have := valid.bounded
    omega
  have inserted := List.perm_orderedInsert (· ≤ ·) ordinal walk.pending
  have ascending := insert_ascending valid.ascending fresh
  generalize windows_eq : walk.pending.orderedInsert (· ≤ ·) ordinal = windows at inserted ascending
  have within : ∀ window ∈ windows, walk.nextFold ≤ window ∧ window < walk.nextIssue := by
    intro window member
    rcases List.mem_cons.mp (inserted.mem_iff.mp member) with rfl | member
    · exact ⟨notFolded, issued⟩
    · exact ⟨(valid.inside window member).1.le, (valid.inside window member).2⟩
  obtain ⟨run, split, _⟩ := foldRun_spec walk.nextFold windows
  obtain ⟨restAscending, past, completed⟩ :=
    foldRun_ascending ascending fun window member => (within window member).1
  have counted := congrArg List.length split
  have many := length_le_of_ascending ascending within
  rw [List.length_append] at counted
  rw [inserted.length_eq, List.length_cons] at counted many
  rw [onCompletion, if_neg expected, windows_eq]
  generalize foldRun walk.nextFold windows = folding at *
  obtain ⟨folded, rest⟩ := folding
  dsimp only at *
  obtain ⟨positive, _, inside, behind, bounded, _, limited, _, _⟩ := valid
  have reads := issueUpToLimit_spec
    { walk with nextFold := walk.nextFold + folded.length, pending := rest }
    bounded (by dsimp only; omega) (by dsimp only; omega)
  dsimp only at reads
  obtain ⟨issue, issues, nextIssue⟩ := reads
  have folds : folded.length = 0 ∨ walk.nextFold + folded.length ≤ walk.nextIssue := by
    by_cases empty : folded.length = 0
    · exact .inl empty
    · have last := (completed (walk.nextFold + folded.length - 1)).mp (.inl (by omega))
      rcases last with early | member
      · omega
      · have := (within _ member).2
        omega
  refine ⟨_, _, rfl, ?_, ?_⟩
  · refine ⟨rfl, rfl, ?_, Nat.le_add_right _ _, issue, issues, ?_, ?_, ?_, unsealed⟩
    · simp only [issueUpToLimit_nextFold, Nat.add_sub_cancel_left]
      exact run
    · intro window
      refine (completed window).trans ?_
      rw [inserted.mem_iff, List.mem_cons, or_assoc, or_comm (a := window = ordinal)]
    · simp only [issueUpToLimit_nextFold, issueUpToLimit_pending]
      omega
    · simp [unsealed]
  · constructor <;> simp only [issueUpToLimit_total, issueUpToLimit_inFlight,
      issueUpToLimit_nextFold, issueUpToLimit_pending, nextIssue]
    · exact positive
    · exact restAscending
    · intro window member
      refine ⟨past window member, ?_⟩
      have := (within window (split ▸ List.mem_append_right _ member)).2
      omega
    · omega
    · omega
    · omega
    · omega
    · omega
    · simp [unsealed]

section

variable (completes : Completes walk ordinal actions after)

include completes

theorem Completes.mem_fold_iff :
    window ∈ actions.fold ↔ walk.nextFold ≤ window ∧ window < after.nextFold := by
  have advances := completes.advances
  rw [completes.fold, List.mem_range'_1]
  omega

theorem Completes.nodup_fold : actions.fold.Nodup := by
  rw [completes.fold]
  exact List.nodup_range'

/-- A slice folds windows that have been read. -/
theorem Completes.read_of_folded (folded : window < after.nextFold)
    (fresh : walk.nextFold ≤ window) :
    window ∈ walk.pending ∨ window = ordinal := by
  rcases (completes.completed window).mp (.inl folded) with (below | waiting) | same
  · omega
  · exact .inl waiting
  · exact .inr same

/-- A slice folds no window that has not been issued. -/
theorem Completes.nextFold_le (valid : walk.Valid) (issued : ordinal < walk.nextIssue) :
    after.nextFold ≤ walk.nextIssue := by
  by_contra past
  have behind := valid.behind
  have folded : walk.nextIssue < after.nextFold := by omega
  rcases completes.read_of_folded folded behind with waiting | same
  · exact lt_irrefl _ (valid.inside _ waiting).2
  · omega

end

/-- The opening slice leaves a valid walk. -/
theorem start_valid (total inFlight : Nat) :
    ((new total inFlight).start).2.Valid ∧
      ((new total inFlight).start).1.issue = range ((new total inFlight).start).2.nextIssue ∧
      ((new total inFlight).start).1.seals = ((new total inFlight).start).2.sealed ∧
      ((new total inFlight).start).2.total = total ∧
      ((new total inFlight).start).2.inFlight = max inFlight 1 ∧
      ((new total inFlight).start).2.nextFold = 0 ∧
      ((new total inFlight).start).2.pending = [] := by
  by_cases empty : total = 0
  · subst empty
    have opening : (new 0 inFlight).start =
        (⟨[], [], true⟩, { new 0 inFlight with sealed := true }) :=
      if_pos ⟨rfl, rfl⟩
    rw [opening]
    refine ⟨?_, rfl, rfl, rfl, rfl, rfl, rfl⟩
    constructor <;> simp [new]
  · have opening : (new total inFlight).start =
        (⟨[], (new total inFlight).issueUpToLimit.1, false⟩,
          (new total inFlight).issueUpToLimit.2) :=
      if_neg (by simp [new, empty])
    obtain ⟨issue, _, nextIssue⟩ := issueUpToLimit_spec (new total inFlight)
      (Nat.zero_le _) (Nat.zero_le _) (Nat.zero_le _)
    rw [opening]
    dsimp only
    refine ⟨?_, ?_, rfl, rfl, rfl, rfl, rfl⟩
    · have reads : (new total inFlight).issueUpToLimit.2.nextIssue =
          min total (max inFlight 1) := by
        simpa [new] using nextIssue
      refine ⟨Nat.le_max_right _ _, .nil, fun _ member => absurd member List.not_mem_nil,
        Nat.zero_le _, reads.le.trans (Nat.min_le_left _ _), Nat.zero_le _, ?_, ?_, ?_⟩
      · change _ ≤ 0 + 0 + max inFlight 1
        omega
      · change _ < total → _ = 0 + 0 + max inFlight 1
        omega
      · change false = true ↔ 0 = total
        simp [Ne.symm empty]
    · rw [List.range_eq_range']
      exact issue

end Completion

/-- The slices of a run, in order. -/
def slices (trace : List (Step FoldWalk Nat
    (Except UnexpectedCompletion SliceActions))) : List SliceActions :=
  (emitted trace).filterMap Except.toOption

/-- The reads completed along a run, in order. -/
def completed (trace : List (Step FoldWalk Nat
    (Except UnexpectedCompletion SliceActions))) : List Nat :=
  trace.filterMap fun recorded =>
    if recorded.output.any Except.isOk then some recorded.input else none

/-- The reads issued by the opening slice and along a run, in order. -/
def issued (total inFlight : Nat) (trace : List (Step FoldWalk Nat
    (Except UnexpectedCompletion SliceActions))) : List Nat :=
  (new total inFlight).start.1.issue ++ (slices trace).flatMap SliceActions.issue

section Runs

variable {total inFlight : Nat} {walk : FoldWalk}
variable {trace : List (Step FoldWalk Nat
  (Except UnexpectedCompletion SliceActions))}

/-- What the state of a walk says about the run that led to it. -/
structure Walked (total inFlight : Nat)
    (trace : List (Step FoldWalk Nat (Except UnexpectedCompletion SliceActions)))
    (walk : FoldWalk) : Prop where
  valid : walk.Valid
  total_eq : walk.total = total
  inFlight_eq : walk.inFlight = max inFlight 1
  folds : (slices trace).flatMap SliceActions.fold = range walk.nextFold
  issues : issued total inFlight trace = range walk.nextIssue
  completes : ∀ window, window ∈ completed trace ↔ window < walk.nextFold ∨ window ∈ walk.pending
  seals : ∀ actions ∈ slices trace, actions.seals = true ↔ 0 < total ∧ total - 1 ∈ actions.fold
  once : ((new total inFlight).start.1 :: slices trace).countP SliceActions.seals =
    if walk.sealed then 1 else 0

/-- A completion is unexpected exactly when its window is not issued or already
completed. -/
theorem Walked.unexpected_iff (walked : Walked total inFlight trace walk) (ordinal : Nat) :
    (ordinal < walk.nextFold ∨ walk.nextIssue ≤ ordinal ∨ ordinal ∈ walk.pending) ↔
      ¬(ordinal ∈ issued total inFlight trace ∧ ordinal ∉ completed trace) := by
  rw [walked.issues, walked.completes, mem_range, not_and_or, not_not, Nat.not_lt]
  tauto

theorem range_append_range' (ordered : low ≤ high) :
    range low ++ range' low (high - low) = range high := by
  have appended := List.range'_append_1 (s := 0) (m := low) (n := high - low)
  rwa [Nat.zero_add, Nat.add_sub_cancel' ordered, ← List.range_eq_range',
    ← List.range_eq_range'] at appended

section

variable (walked : Walked total inFlight trace walk)

include walked

/-- A refused completion adds nothing to the history. -/
theorem Walked.refused (ordinal : Nat) :
    Walked total inFlight (trace ++ [⟨walk, ordinal, walk, [.error ⟨ordinal⟩]⟩]) walk := by
  have slices_eq : slices (trace ++ [⟨walk, ordinal, walk, [.error ⟨ordinal⟩]⟩]) =
      slices trace := by
    simp [slices, Except.toOption]
  have completed_eq : completed (trace ++ [⟨walk, ordinal, walk, [.error ⟨ordinal⟩]⟩]) =
      completed trace := by
    simp [completed, Except.isOk, Except.toBool]
  obtain ⟨valid, total_eq, inFlight_eq, folds, issues, completes, seals, once⟩ := walked
  refine ⟨valid, total_eq, inFlight_eq, ?_, ?_, ?_, ?_, ?_⟩
  · rwa [slices_eq]
  · rwa [issued, slices_eq]
  · rwa [completed_eq]
  · rwa [slices_eq]
  · rwa [slices_eq]

/-- An accepted completion extends the history by its slice. -/
theorem Walked.accepted {ordinal : Nat} (completes : Completes walk ordinal actions after)
    (valid : after.Valid) :
    Walked total inFlight (trace ++ [⟨walk, ordinal, after, [.ok actions]⟩]) after := by
  have slices_eq : slices (trace ++ [⟨walk, ordinal, after, [.ok actions]⟩]) =
      slices trace ++ [actions] := by
    simp [slices, Except.toOption]
  have completed_eq : completed (trace ++ [⟨walk, ordinal, after, [.ok actions]⟩]) =
      completed trace ++ [ordinal] := by
    simp [completed, Except.isOk, Except.toBool]
  refine ⟨valid, completes.total.trans walked.total_eq,
    completes.inFlight.trans walked.inFlight_eq, ?_, ?_, ?_, ?_, ?_⟩
  · rw [slices_eq, List.flatMap_append, walked.folds, List.flatMap_singleton,
      completes.fold, range_append_range' completes.advances]
  · have issues := walked.issues
    rw [issued] at issues
    rw [issued, slices_eq, List.flatMap_append, ← List.append_assoc, issues,
      List.flatMap_singleton, completes.issue, range_append_range' completes.issues]
  · intro window
    rw [completed_eq, List.mem_append, walked.completes, completes.completed, List.mem_singleton]
  · have ends : actions.seals = true ↔ 0 < total ∧ total - 1 ∈ actions.fold := by
      rw [completes.seals, completes.fold, List.mem_range'_1, walked.total_eq]
      have behind := valid.behind
      have bounded := valid.bounded
      have advances := completes.advances
      have unfinished := mt walked.valid.sealed_iff.mpr (by simp [completes.unsealed])
      rw [completes.total, walked.total_eq] at bounded
      rw [walked.total_eq] at unfinished
      omega
    rw [slices_eq]
    exact Lists.forall_mem_concat.mpr ⟨walked.seals, ends⟩
  · have now : after.sealed = actions.seals := by
      rw [Bool.eq_iff_iff, valid.sealed_iff, completes.seals, completes.total]
    have before := walked.once
    rw [completes.unsealed] at before
    rw [slices_eq, ← List.cons_append, List.countP_append, before, now]
    cases sealing : actions.seals <;> simp [sealing]

/-- The reads issued but not completed are at most `inFlight`. -/
theorem Walked.outstanding_le :
    ((issued total inFlight trace).filter fun window =>
      window ∉ completed trace).length ≤ walk.inFlight := by
  obtain ⟨_, ascending, inside, behind, _, _, limited, _, _⟩ := walked.valid
  rw [walked.issues]
  have past : (range walk.nextFold ++ walk.pending).Nodup := by
    refine List.nodup_append.mpr ⟨List.nodup_range, ascending.imp ne_of_lt, ?_⟩
    intro folded below waiting member same
    have := mem_range.mp below
    have := (inside waiting member).1
    omega
  have distinct : ((range walk.nextIssue).filter (fun window =>
      window ∉ completed trace) ++ (range walk.nextFold ++ walk.pending)).Nodup := by
    refine List.nodup_append.mpr ⟨List.nodup_range.filter _, past, ?_⟩
    rintro window kept other done rfl
    have missing : window ∉ completed trace := by simpa using (List.mem_filter.mp kept).2
    rw [walked.completes, ← mem_range, ← List.mem_append] at missing
    exact missing done
  have subset : (range walk.nextIssue).filter (fun window =>
      window ∉ completed trace) ++ (range walk.nextFold ++ walk.pending) ⊆
        range walk.nextIssue := by
    intro window member
    rw [List.mem_append, List.mem_append, mem_range] at member
    rcases member with kept | below | waiting
    · exact (List.mem_filter.mp kept).1
    · exact mem_range.mpr (by omega)
    · exact mem_range.mpr (inside window waiting).2
  have counted := (List.subperm_of_subset distinct subset).length_le
  simp only [List.length_append, List.length_range] at counted
  omega

end

/-- Every run keeps the state in step with its history. -/
theorem walked_of_run (run : Run (graph step) (new total inFlight).start.2 trace walk) :
    Walked total inFlight trace walk := by
  refine run.history (Walked total inFlight) ?_ ?_
  · obtain ⟨valid, issue, seals, total_eq, inFlight_eq, nextFold, pending⟩ :=
      start_valid total inFlight
    refine ⟨valid, total_eq, inFlight_eq, ?_, ?_, ?_, ?_, ?_⟩
    · rw [nextFold]
      rfl
    · simp [issued, slices, issue]
    · simp [completed, nextFold, pending]
    · simp [slices]
    · simp [slices, seals]
  · intro trace walk ordinal after output _ walked stepped
    cases stepped
    by_cases unexpected : ordinal < walk.nextFold ∨ walk.nextIssue ≤ ordinal ∨
        ordinal ∈ walk.pending
    · rw [onCompletion_refused unexpected]
      exact walked.refused ordinal
    · obtain ⟨actions, after, answered, completes, valid⟩ :=
        onCompletion_accepted walked.valid unexpected
      rw [answered]
      exact walked.accepted completes valid

/-- The schedule of a walk over `total` windows along a run. -/
structure Scheduled (total inFlight : Nat)
    (trace : List (Step FoldWalk Nat (Except UnexpectedCompletion SliceActions)))
    (walk : FoldWalk) : Prop where
  /-- Windows fold in ascending order, each once. -/
  folds : ∃ count ≤ total, (slices trace).flatMap SliceActions.fold = range count
  /-- Reads are issued in ascending order, each once. -/
  issues : ∃ count ≤ total, issued total inFlight trace = range count
  /-- The reads issued but not completed stay within the bound. -/
  limited : ((issued total inFlight trace).filter fun window =>
    window ∉ completed trace).length ≤ max inFlight 1
  live : walk.sealed = false → ∃ window ∈ issued total inFlight trace, window ∉ completed trace
  finished : walk.sealed = true →
    (slices trace).flatMap SliceActions.fold = range total ∧
      issued total inFlight trace = range total
  opening : (new total inFlight).start.1.seals = true ↔ total = 0
  seals : ∀ actions ∈ slices trace, actions.seals = true ↔ 0 < total ∧ total - 1 ∈ actions.fold
  /-- The walk seals at most once, and once when it is sealed. -/
  once : ((new total inFlight).start.1 :: slices trace).countP SliceActions.seals =
    if walk.sealed then 1 else 0
  /-- A completion is accepted when its read is outstanding; any other is refused
  and changes nothing. -/
  answers : ∀ earlier recorded later, trace = earlier ++ recorded :: later →
    if recorded.input ∈ issued total inFlight earlier ∧ recorded.input ∉ completed earlier then
      ∃ actions, recorded.output = [.ok actions]
    else recorded.output = [.error ⟨recorded.input⟩] ∧ recorded.after = recorded.before

/-- Every walk keeps the schedule, for every number of windows, every bound and
every sequence of completions. -/
theorem foldWalk_keeps_schedule (total inFlight : Nat)
    {trace : List (Step FoldWalk Nat (Except UnexpectedCompletion SliceActions))} {walk : FoldWalk}
    (run : Run (graph step) (new total inFlight).start.2 trace walk) :
    Scheduled total inFlight trace walk := by
  have walked := walked_of_run run
  have valid := walked.valid
  have total_eq := walked.total_eq
  refine ⟨⟨_, ?_, walked.folds⟩, ⟨_, ?_, walked.issues⟩, ?_, ?_, ?_, ?_, walked.seals,
    walked.once, ?_⟩
  · rw [← total_eq]
    exact valid.behind.trans valid.bounded
  · rw [← total_eq]
    exact valid.bounded
  · rw [← walked.inFlight_eq]
    exact walked.outstanding_le
  · intro unsealed
    refine ⟨walk.nextFold, ?_, ?_⟩
    · rw [walked.issues, mem_range]
      have unfinished : walk.nextFold ≠ walk.total := by
        rw [ne_eq, ← valid.sealed_iff, unsealed]
        simp
      have positive := valid.positive
      have bounded := valid.bounded
      have behind := valid.behind
      by_cases more : walk.nextIssue < walk.total
      · have filled := valid.filled more
        omega
      · omega
    · rw [walked.completes]
      rintro (below | waiting)
      · exact lt_irrefl _ below
      · exact lt_irrefl _ (valid.inside _ waiting).1
  · intro sealed
    have everything := valid.sealed_iff.mp sealed
    have behind := valid.behind
    have bounded := valid.bounded
    rw [walked.folds, walked.issues, everything, total_eq]
    exact ⟨rfl, by rw [show walk.nextIssue = total by omega]⟩
  · obtain ⟨startValid, _, seals, startTotal, _, nextFold, _⟩ := start_valid total inFlight
    rw [seals, startValid.sealed_iff, nextFold, startTotal, eq_comm]
  · intro earlier recorded later parted
    obtain ⟨before, stepped⟩ := run.split parted
    have walkedBefore := walked_of_run before
    obtain ⟨after_eq, output_eq⟩ := Prod.mk.inj (Option.some.inj stepped)
    split
    · rename_i outstanding
      have expected := mt (walkedBefore.unexpected_iff _).mp (not_not_intro outstanding)
      obtain ⟨actions, after, answered, _, _⟩ := onCompletion_accepted walkedBefore.valid expected
      exact ⟨actions, by rw [← output_eq, answered]⟩
    · rename_i unexpected
      have refused := onCompletion_refused ((walkedBefore.unexpected_iff _).mpr unexpected)
      rw [refused] at after_eq output_eq
      exact ⟨output_eq.symm, after_eq.symm⟩

/-- A walk of four windows, two at a time, whose reads complete out of order with
repeated and unissued completions in between. -/
theorem four_windows_scheduled :
    ∃ trace walk,
      Run (graph step) (new 4 2).start.2 trace walk ∧
      walk.sealed = true ∧ Scheduled 4 2 trace walk := by
  obtain ⟨trace, walk, run, checked⟩ := Run.of_checked_exec step (new 4 2).start.2
    [1, 1, 3, 0, 3, 0, 2] (fun _ walk => walk.sealed = true) (by decide)
  exact ⟨trace, walk, run, checked, foldWalk_keeps_schedule 4 2 run⟩

end Runs

end FoldWalk
end DaemonNode
