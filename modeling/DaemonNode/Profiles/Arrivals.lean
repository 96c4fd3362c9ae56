import DaemonNode.Profiles.Folds

/-!
# Reads that arrive once

An ingest walk issues reads and is given their bytes. Here every delivery is of
a read that is still outstanding: issued more often than it was delivered. Such
a run keeps the stash in step with the schedule.
-/

namespace DaemonNode

open Option (bind_eq_some_iff)

def IngestFetch.read (fetch : IngestFetch) : IngestPart × Nat :=
  (fetch.part, fetch.window.ordinal)

namespace SparseLocoIngestWalk

open DetState (stateElemBytes)
open Word (Overflow)

variable {floats : Floats F32 F64} {xxh : Xxh3 Hasher}
variable {walk after : SparseLocoIngestWalk F32 F64 Hasher}
variable {answer : Except String (IngestSlice F32)}
variable {part : IngestPart} {ordinal : Nat} {bytes : List Byte} {arrival : Arrival F32}

/-- The ways a delivery can go. -/
inductive Delivers (floats : Floats F32 F64) (xxh : Xxh3 Hasher)
    (walk : SparseLocoIngestWalk F32 F64 Hasher) (part : IngestPart) (ordinal : Nat)
    (bytes : List Byte) :
    Except String (IngestSlice F32) → SparseLocoIngestWalk F32 F64 Hasher → Prop
  | unstarted :
      walk.started = false →
      Delivers floats xxh walk part ordinal bytes (.error "walk not started") walk
  | torn {refusal : String} :
      walk.started = true →
      walk.decodePart floats part ordinal bytes = some (.error refusal) →
      Delivers floats xxh walk part ordinal bytes (.error refusal) walk
  | arriving {arrival : Arrival F32} :
      walk.started = true →
      walk.decodePart floats part ordinal bytes = some (.ok arrival) →
      (walk.stash ordinal arrival).windowComplete ordinal = false →
      Delivers floats xxh walk part ordinal bytes (.ok ⟨[], [], false⟩) (walk.stash ordinal arrival)
  | refused {arrival : Arrival F32} :
      walk.started = true →
      walk.decodePart floats part ordinal bytes = some (.ok arrival) →
      (walk.stash ordinal arrival).windowComplete ordinal = true →
      (ordinal < walk.walk.nextFold ∨ walk.walk.nextIssue ≤ ordinal ∨ ordinal ∈ walk.walk.pending) →
      Delivers floats xxh walk part ordinal bytes
        (.error (UnexpectedCompletion.message ⟨ordinal⟩)) (walk.stash ordinal arrival)
  | accepted {arrival : Arrival F32} {actions : SliceActions} {cursor : FoldWalk}
      {answer : Except String (IngestSlice F32)}
      {after : SparseLocoIngestWalk F32 F64 Hasher} :
      walk.started = true →
      walk.decodePart floats part ordinal bytes = some (.ok arrival) →
      (walk.stash ordinal arrival).windowComplete ordinal = true →
      walk.walk.onCompletion ordinal = (.ok actions, cursor) →
      advance floats xxh { walk.stash ordinal arrival with walk := cursor } actions =
        some (answer, after) →
      Delivers floats xxh walk part ordinal bytes answer after

@[simp] theorem stash_walk : (walk.stash ordinal arrival).walk = walk.walk := rfl

/-- A delivery is answered in one of these ways. -/
theorem onPartReady_eq_some_iff :
    walk.onPartReady floats xxh part ordinal bytes = some (answer, after) ↔
      Delivers floats xxh walk part ordinal bytes answer after := by
  constructor
  · intro returned
    unfold onPartReady at returned
    cases started : walk.started with
    | false =>
      rw [started] at returned
      cases returned
      exact .unstarted started
    | true =>
      rw [started] at returned
      obtain ⟨_ | arrival, decoding, returned⟩ := bind_eq_some_iff.mp returned
      · cases returned
        exact .torn started decoding
      dsimp only at returned
      cases complete : (walk.stash ordinal arrival).windowComplete ordinal with
      | false =>
        rw [complete] at returned
        cases returned
        exact .arriving started decoding complete
      | true =>
        rw [complete, if_neg (by simp), stash_walk] at returned
        by_cases unasked : ordinal < walk.walk.nextFold ∨
            walk.walk.nextIssue ≤ ordinal ∨ ordinal ∈ walk.walk.pending
        · rw [FoldWalk.onCompletion_refused unasked] at returned
          cases returned
          exact .refused started decoding complete unasked
        · rw [FoldWalk.onCompletion, if_neg unasked] at returned
          exact .accepted started decoding complete (if_neg unasked) returned
  · intro delivers
    cases delivers with
    | unstarted unstarted => simp [onPartReady, unstarted]
    | torn started decoding => simp [onPartReady, started, decoding]
    | arriving started decoding incomplete => simp [onPartReady, started, decoding, incomplete]
    | refused started decoding complete unasked =>
      simp [onPartReady, started, decoding, complete, FoldWalk.onCompletion_refused unasked]
      rfl
    | accepted started decoding complete completed advanced =>
      simp [onPartReady, started, decoding, complete, completed, advanced]

variable {folded : Except String (List (Window × List F32))} {actions : SliceActions}

/-- What a pass over the windows starts with. -/
abbrev opens (walk : SparseLocoIngestWalk F32 F64 Hasher) : SliceActions × FoldWalk :=
  (FoldWalk.new walk.schedule.length walk.inFlight).start

/-- Opening the fold pass resets the cursor and the stash. -/
theorem advanceToFold_eq (advanced : walk.advanceToFold floats = some (opening, after)) :
    ∃ scale issue,
      after =
        { walk with scale, phase := .fold, walk := walk.opens.2, parts := ∅ } ∧
        after.fetchesFor walk.opens.1.issue = some issue ∧
          opening = ⟨[], issue, walk.opens.1.seals⟩ := by
  obtain ⟨scale, _, advanced⟩ := bind_eq_some_iff.mp advanced
  obtain ⟨issue, fetched, built⟩ := bind_eq_some_iff.mp advanced
  cases built
  exact ⟨scale, issue, rfl, fetched, rfl⟩

/-- What follows a completed window whose folds succeed. -/
theorem advance_cases
    (succeeds : ∀ folded next, walk.foldWindows floats xxh actions.fold =
      some (folded, next) → ∃ emitted, folded = .ok emitted)
    (advanced : walk.advance floats xxh actions = some (answer, after)) :
    ∃ emitted middle, walk.foldWindows floats xxh actions.fold = some (.ok emitted, middle) ∧
      ((actions.seals = true ∧ middle.phase = .norms ∧
          ∃ opening, middle.advanceToFold floats = some (opening, after) ∧
            answer = .ok ⟨emitted, opening.issue, opening.sealed⟩) ∨
        ((actions.seals && middle.phase == .norms) = false ∧ after = middle ∧
          ∃ issue, middle.fetchesFor actions.issue = some issue ∧
            answer = .ok ⟨emitted, issue, actions.seals⟩)) := by
  obtain ⟨⟨folded, middle⟩, looped, advanced⟩ := bind_eq_some_iff.mp advanced
  obtain ⟨emitted, rfl⟩ := succeeds folded middle looped
  refine ⟨emitted, middle, looped, ?_⟩
  obtain ⟨issue, fetched, advanced⟩ := bind_eq_some_iff.mp advanced
  cases turns : actions.seals && middle.phase == .norms with
  | true =>
    rw [if_pos turns] at advanced
    obtain ⟨⟨opening, opened⟩, advances, built⟩ := bind_eq_some_iff.mp advanced
    cases built
    rw [Bool.and_eq_true, beq_iff_eq] at turns
    exact .inl ⟨turns.1, turns.2, opening, advances, rfl⟩
  | false =>
    rw [if_neg (by simp [turns])] at advanced
    cases advanced
    exact .inr ⟨rfl, rfl, issue, fetched, rfl⟩

/-- What is stashed of a window. -/
def entry (walk : SparseLocoIngestWalk F32 F64 Hasher) (ordinal : Nat) :
    WindowParts F32 :=
  (walk.parts[ordinal]?).getD .empty

/-- Whether a part of a window is stashed. -/
def held (walk : SparseLocoIngestWalk F32 F64 Hasher) (part : IngestPart) (ordinal : Nat) : Bool :=
  (walk.entry ordinal).holds part

/-- The stash of a walk whose every delivery was asked for. -/
structure Sound (walk : SparseLocoIngestWalk F32 F64 Hasher) : Prop where
  geometry : walk.Geometry
  started : walk.started = true
  valid : walk.walk.Valid
  total : walk.walk.total = walk.schedule.length
  inFlight : walk.walk.inFlight = max walk.inFlight 1
  nonempty : walk.phase.parts walk.peers ≠ []
  inside : ∀ ordinal ∈ walk.parts, walk.walk.nextFold ≤ ordinal ∧ ordinal < walk.walk.nextIssue
  fits : ∀ ordinal window, walk.schedule[ordinal]? = some window →
    (walk.entry ordinal).Fits walk.layout window
  inRange : ∀ part ordinal, walk.held part ordinal = true → part.InRange walk.peers
  /-- The windows that wait for earlier ones are those with all their parts. -/
  waiting : ∀ ordinal, ordinal ∈ walk.walk.pending ↔
    ∀ part ∈ walk.phase.parts walk.peers, walk.held part ordinal = true

/-- A read that is issued and has not arrived. -/
def Expects (walk : SparseLocoIngestWalk F32 F64 Hasher) (read : IngestPart × Nat) :
    Prop :=
  read.1 ∈ walk.phase.parts walk.peers ∧
    (walk.walk.nextFold ≤ read.2 ∧ read.2 < walk.walk.nextIssue) ∧ ¬walk.held read.1 read.2 = true

instance (walk : SparseLocoIngestWalk F32 F64 Hasher) (read : IngestPart × Nat) :
    Decidable (walk.Expects read) :=
  inferInstanceAs (Decidable (_ ∧ (_ ∧ _) ∧ ¬_))

theorem mem_parts_of_held (holds : walk.held part ordinal = true) : ordinal ∈ walk.parts := by
  by_contra absent
  rw [held, entry, Std.ExtTreeMap.getElem?_eq_none absent] at holds
  simp at holds

theorem getElem?_stash_self :
    (walk.stash ordinal arrival).parts[ordinal]? = some ((walk.entry ordinal).put arrival) :=
  Std.ExtTreeMap.getElem?_insert_self

theorem getElem?_stash_of_ne (different : window ≠ ordinal) :
    (walk.stash ordinal arrival).parts[window]? = walk.parts[window]? := by
  refine Std.ExtTreeMap.getElem?_insert.trans (if_neg ?_)
  rw [Nat.compare_eq_eq]
  exact Ne.symm different

theorem entry_stash (window : Nat) :
    (walk.stash ordinal arrival).entry window =
      if window = ordinal then (walk.entry ordinal).put arrival else walk.entry window := by
  by_cases same : window = ordinal
  · rw [entry, if_pos same, same, getElem?_stash_self]
    rfl
  · rw [entry, if_neg same, getElem?_stash_of_ne same]
    rfl

theorem held_stash :
    (walk.stash ordinal arrival).held part window = true ↔
      (part = arrival.part ∧ window = ordinal) ∨ walk.held part window = true := by
  rw [held, entry_stash]
  by_cases same : window = ordinal
  · rw [if_pos same, WindowParts.holds_put, same, and_iff_left rfl]
    rfl
  · rw [if_neg same]
    simp [same, held]

/-- In a phase that folds with some part, a window is complete when it holds them
all. -/
theorem windowComplete_iff (walk : SparseLocoIngestWalk F32 F64 Hasher)
    (nonempty : walk.phase.parts walk.peers ≠ [])
    (inRange : ∀ part, walk.held part ordinal = true → part.InRange walk.peers) :
    walk.windowComplete ordinal = true ↔
      ∀ part ∈ walk.phase.parts walk.peers, walk.held part ordinal = true := by
  unfold windowComplete
  cases stashed : walk.parts[ordinal]? with
  | none =>
    simp only [Bool.false_eq_true, false_iff]
    intro every
    obtain ⟨first, member⟩ := List.exists_mem_of_ne_nil _ nonempty
    have absent := every first member
    rw [held, entry, stashed] at absent
    simp at absent
  | some parts =>
    have same : walk.entry ordinal = parts := by rw [entry, stashed]; rfl
    simp only [held, same] at inRange ⊢
    exact WindowParts.complete_iff inRange

structure Unstashed (fold : List Nat) (stashed parts : Std.ExtTreeMap Nat (WindowParts F32)) :
    Prop where
  outside : ∀ window, window ∉ fold → parts[window]? = stashed[window]?
  folded : ∀ window ∈ fold, parts[window]? = none

namespace Unstashed

variable {stashed parts : Std.ExtTreeMap Nat (WindowParts F32)} {window : Nat}

section

variable (unstashed : Unstashed fold stashed parts)

include unstashed

theorem mem_iff : window ∈ parts ↔ window ∉ fold ∧ window ∈ stashed := by
  rw [← Std.ExtTreeMap.isSome_getElem?_iff_mem, ← Std.ExtTreeMap.isSome_getElem?_iff_mem]
  by_cases member : window ∈ fold
  · simp [unstashed.folded window member, member]
  · simp [unstashed.outside window member, member]

theorem holds_iff :
    ((parts[window]?).getD .empty).holds part = true ↔
      window ∉ fold ∧ ((stashed[window]?).getD .empty).holds part = true := by
  by_cases member : window ∈ fold
  · simp [unstashed.folded window member, member]
  · simp [unstashed.outside window member, member]

theorem fits {layout : PayloadLayout} (fits : ((stashed[window]?).getD .empty).Fits layout own) :
    ((parts[window]?).getD .empty).Fits layout own := by
  by_cases member : window ∈ fold
  · rw [unstashed.folded window member]
    exact WindowParts.fits_empty
  · rwa [unstashed.outside window member]

end

end Unstashed

theorem unstashed_of_foldWindows
    (looped : walk.foldWindows floats xxh ordinals = some (.ok emitted, after)) :
    ∃ parts sumsq carry, after = { walk with parts, sumsq, carry } ∧
      Unstashed ordinals walk.parts parts := by
  obtain ⟨parts, sumsq, carry, same, outside, folded⟩ := foldWindows_frame looped
  exact ⟨parts, sumsq, carry, same, outside, folded emitted rfl⟩

/-- An opening slice leaves an empty stash and asks for the windows it issues. -/
theorem sound_of_opening (geometry : walk.Geometry) (started : walk.started = true)
    (nonempty : walk.phase.parts walk.peers ≠ [])
    (opened : walk.walk = walk.opens.2)
    (empty : walk.parts = ∅) :
    walk.Sound ∧ ∀ read, walk.Expects read ↔
      read.1 ∈ walk.phase.parts walk.peers ∧ read.2 ∈ walk.opens.1.issue := by
  obtain ⟨valid, issue, _, total, inFlight, nextFold, pending⟩ :=
    FoldWalk.start_valid walk.schedule.length walk.inFlight
  rw [← opened] at valid issue total inFlight nextFold pending
  have entry_empty : ∀ ordinal, walk.entry ordinal = .empty := by
    intro ordinal
    rw [entry, empty, Std.ExtTreeMap.getElem?_empty]
    rfl
  have nothing : ∀ part ordinal, walk.held part ordinal = false := by
    intro part ordinal
    rw [held, entry_empty, WindowParts.holds_empty]
  refine ⟨⟨geometry, started, valid, total, inFlight, nonempty, ?_, ?_, ?_, ?_⟩, ?_⟩
  · simp [empty]
  · intro ordinal window _
    rw [entry_empty]
    exact WindowParts.fits_empty
  · simp [nothing]
  · obtain ⟨first, member⟩ := List.exists_mem_of_ne_nil _ nonempty
    intro ordinal
    simp only [pending, List.not_mem_nil, nothing, Bool.false_eq_true, false_iff]
    exact fun every => every first member
  · intro read
    rw [issue, List.mem_range, Expects, nextFold]
    simp [nothing]

namespace Sound

/-- A part in the shape of its window keeps the stash in shape. -/
theorem fits_stash (sound : walk.Sound)
    (own : ∀ window, walk.schedule[ordinal]? = some window → arrival.Fits walk.layout window)
    (scheduled : walk.schedule[other]? = some window) :
    ((walk.stash ordinal arrival).entry other).Fits walk.layout window := by
  rw [entry_stash]
  split
  · rename_i same
    rw [same] at scheduled
    have fits := sound.fits ordinal window scheduled
    have own := own window scheduled
    obtain ⟨roundBase, values, indices⟩ := fits
    cases arrival with
    | roundBase state =>
      refine ⟨?_, values, indices⟩
      rintro _ ⟨⟩
      exact own
    | values peer rows => exact ⟨roundBase, Maps.forall_getElem?_insert values own, indices⟩
    | indices peer rows => exact ⟨roundBase, values, Maps.forall_getElem?_insert indices own⟩
  · exact sound.fits other window scheduled

theorem inRange_stash (sound : walk.Sound) (own : arrival.part.InRange walk.peers)
    (holds : (walk.stash ordinal arrival).held part other = true) :
    part.InRange walk.peers := by
  rcases held_stash.mp holds with ⟨rfl, _⟩ | earlier
  · exact own
  · exact sound.inRange part other earlier

theorem arriving (sound : walk.Sound) (expects : walk.Expects (arrival.part, ordinal))
    (own : ∀ window, walk.schedule[ordinal]? = some window → arrival.Fits walk.layout window)
    (incomplete : (walk.stash ordinal arrival).windowComplete ordinal = false) :
    (walk.stash ordinal arrival).Sound ∧
      ∀ read, (walk.stash ordinal arrival).Expects read ↔
        walk.Expects read ∧ read ≠ (arrival.part, ordinal) := by
  obtain ⟨asked, between, absent⟩ := expects
  have inRange : ∀ part other, (walk.stash ordinal arrival).held part other = true →
      part.InRange walk.peers :=
    fun part other => sound.inRange_stash (inRange_of_mem_parts asked)
  have missing : ¬∀ part ∈ walk.phase.parts walk.peers,
      (walk.stash ordinal arrival).held part ordinal = true := by
    intro every
    have complete := (windowComplete_iff (walk.stash ordinal arrival)
      sound.nonempty fun part => inRange part ordinal).mpr every
    rw [incomplete] at complete
    cases complete
  refine ⟨⟨{ sound.geometry with }, sound.started, sound.valid, sound.total, sound.inFlight,
    sound.nonempty, ?_, fun other window => sound.fits_stash own, inRange, ?_⟩, ?_⟩
  · intro other member
    rcases Std.ExtTreeMap.mem_insert.mp member with equal | earlier
    · rw [← Nat.compare_eq_eq.mp equal]
      exact between
    · exact sound.inside other earlier
  · intro other
    by_cases same : other = ordinal
    · subst same
      refine iff_of_false ?_ missing
      intro waits
      exact absent ((sound.waiting other).mp waits _ asked)
    · refine (sound.waiting other).trans (forall₂_congr fun part _ => ?_)
      rw [held_stash]
      simp [same]
  · rintro ⟨part, other⟩
    rw [ne_eq, Prod.mk.injEq, Expects, held_stash]
    change part ∈ walk.phase.parts walk.peers ∧ _ ↔ (part ∈ _ ∧ _) ∧ _
    tauto

end Sound

/-- A part that came in its shape and completes an outstanding window. -/
structure Completing (walk : SparseLocoIngestWalk F32 F64 Hasher) (ordinal : Nat)
    (arrival : Arrival F32) (actions : SliceActions) (cursor : FoldWalk) : Prop where
  sound : walk.Sound
  own : ∀ window, walk.schedule[ordinal]? = some window → arrival.Fits walk.layout window
  between : walk.walk.nextFold ≤ ordinal ∧ ordinal < walk.walk.nextIssue
  full : ∀ part ∈ walk.phase.parts walk.peers, (walk.stash ordinal arrival).held part ordinal = true
  completes : FoldWalk.Completes walk.walk ordinal actions cursor
  valid : cursor.Valid

namespace Completing

variable {cursor : FoldWalk}
variable (completing : Completing walk ordinal arrival actions cursor)

include completing

/-- The windows a slice folds have all their parts. -/
theorem folds_ready (member : window ∈ actions.fold) :
    Ready { walk.stash ordinal arrival with walk := cursor } window := by
  obtain ⟨sound, own, between, full, completes, -⟩ := completing
  obtain ⟨fresh, folded⟩ := completes.mem_fold_iff.mp member
  have read := completes.read_of_folded folded fresh
  have bounded := sound.valid.bounded
  have below : window < walk.schedule.length := by
    rw [← sound.total]
    rcases read with waiting | rfl
    · exact (sound.valid.inside _ waiting).2.trans_le bounded
    · exact between.2.trans_le bounded
  have every : ∀ part ∈ walk.phase.parts walk.peers,
      (walk.stash ordinal arrival).held part window = true := by
    rcases read with waiting | rfl
    · intro part member
      exact held_stash.mpr (.inr ((sound.waiting window).mp waiting part member))
    · exact full
  obtain ⟨first, member⟩ := List.exists_mem_of_ne_nil _ sound.nonempty
  obtain ⟨parts, found⟩ : ∃ parts, (walk.stash ordinal arrival).parts[window]? = some parts := by
    rw [← Option.isSome_iff_exists]
    simpa using mem_parts_of_held (every first member)
  have fits := sound.fits_stash own (List.getElem?_eq_getElem below)
  have same : (walk.stash ordinal arrival).entry window = parts := by rw [entry, found]; rfl
  simp only [held, same] at every fits
  exact ⟨_, parts, List.getElem?_eq_getElem below, found, fits, every⟩

/-- What stays stashed is read and not folded yet. -/
theorem inside_stash (stashed : window ∈ (walk.stash ordinal arrival).parts)
    (absent : window ∉ actions.fold) :
    cursor.nextFold ≤ window ∧ window < walk.walk.nextIssue := by
  have between := completing.between
  rw [completing.completes.mem_fold_iff] at absent
  rcases Std.ExtTreeMap.mem_insert.mp stashed with equal | earlier
  · rw [← Nat.compare_eq_eq.mp equal] at absent ⊢
    omega
  · have inside := completing.sound.inside window earlier
    omega

/-- The windows that wait after a slice hold all their parts. -/
theorem waiting_stash :
    window ∈ cursor.pending ↔ ∀ part ∈ walk.phase.parts walk.peers,
      window ∉ actions.fold ∧ (walk.stash ordinal arrival).held part window = true := by
  obtain ⟨sound, -, between, full, completes, valid⟩ := completing
  have advances := completes.advances
  have completed := completes.completed window
  have ahead : window ∈ cursor.pending → cursor.nextFold < window :=
    fun waits => (valid.inside window waits).1
  have before : window ∈ walk.walk.pending → walk.walk.nextFold < window :=
    fun waits => (sound.valid.inside window waits).1
  obtain ⟨first, member⟩ := List.exists_mem_of_ne_nil _ sound.nonempty
  by_cases inFold : window ∈ actions.fold
  · refine iff_of_false ?_ fun every => (every first member).1 inFold
    intro waits
    have := (completes.mem_fold_iff.mp inFold).2
    have := ahead waits
    omega
  have unfolded := inFold
  rw [completes.mem_fold_iff] at unfolded
  by_cases same : window = ordinal
  · subst same
    refine iff_of_true ?_ fun part asked => ⟨inFold, full part asked⟩
    exact (completed.mpr (.inr rfl)).resolve_left (by omega)
  have others : (∀ part ∈ walk.phase.parts walk.peers,
      (walk.stash ordinal arrival).held part window = true) ↔
      window ∈ walk.walk.pending := by
    rw [sound.waiting]
    refine forall₂_congr fun part _ => ?_
    rw [held_stash]
    simp [same]
  simp only [inFold, not_false_eq_true, true_and, others]
  constructor
  · intro waits
    have := ahead waits
    rcases completed.mp (.inr waits) with (early | waiting) | equal
    · omega
    · exact waiting
    · exact absurd equal same
  · intro waits
    have := before waits
    exact (completed.mpr (.inl (.inr waits))).resolve_left (by omega)

/-- The reads that are expected after a slice: the new ones, and the old ones but that
of the part that came. -/
theorem expects_stash (asked : part ∈ walk.phase.parts walk.peers) :
    (cursor.nextFold ≤ window ∧ window < cursor.nextIssue) ∧
        ¬(window ∉ actions.fold ∧ (walk.stash ordinal arrival).held part window = true) ↔
      (walk.Expects (part, window) ∧ (part, window) ≠ (arrival.part, ordinal)) ∨
        window ∈ actions.issue := by
  have ⟨sound, _, between, full, completes, _⟩ := completing
  have reads := completes.nextFold_le sound.valid between.2
  have advances := completes.advances
  have issues := completes.issues
  rw [ne_eq, Prod.mk.injEq, completes.issue, List.mem_range'_1]
  constructor
  · rintro ⟨⟨fresh, below⟩, absent⟩
    have notFolded : window ∉ actions.fold := by
      rw [completes.mem_fold_iff]
      omega
    rw [held_stash] at absent
    by_cases old : window < walk.walk.nextIssue
    · refine .inl ⟨⟨asked, ⟨by dsimp only; omega, old⟩, ?_⟩, ?_⟩
      · exact fun holds => absent ⟨notFolded, .inr holds⟩
      · exact fun same => absent ⟨notFolded, .inl same⟩
    · exact .inr (by omega)
  · rintro (⟨⟨_, ⟨fresh, below⟩, absent⟩, other⟩ | issued)
    · dsimp only at fresh below absent
      have missing : ¬(walk.stash ordinal arrival).held part window = true := by
        intro holds
        rcases held_stash.mp holds with same | holds
        · exact other same
        · exact absent holds
      have notFolded : cursor.nextFold ≤ window := by
        by_contra early
        rcases completes.read_of_folded (by omega) fresh with waiting | rfl
        · exact absent ((sound.waiting window).mp waiting part asked)
        · exact missing (full part asked)
      exact ⟨⟨notFolded, by omega⟩, fun stays => missing stays.2⟩
    · refine ⟨by omega, ?_⟩
      rintro ⟨notFolded, holds⟩
      have := completing.inside_stash (mem_parts_of_held holds) notFolded
      omega

/-- A part that completes an outstanding window lets the walk fold on. -/
theorem accepted (asked : arrival.part.InRange walk.peers) {emitted : List (Window × List F32)}
    (looped : foldWindows floats xxh actions.fold
      { walk.stash ordinal arrival with walk := cursor } = some (.ok emitted, after)) :
    after.Sound ∧ ∀ read, after.Expects read ↔
      (walk.Expects read ∧ read ≠ (arrival.part, ordinal)) ∨
        (read.1 ∈ walk.phase.parts walk.peers ∧ read.2 ∈ actions.issue) := by
  obtain ⟨parts, sumsq, carry, rfl, unstashed⟩ := unstashed_of_foldWindows looped
  have sound := completing.sound
  have completes := completing.completes
  refine ⟨⟨{ sound.geometry with }, sound.started, completing.valid,
    completes.total.trans sound.total, completes.inFlight.trans sound.inFlight,
    sound.nonempty, ?_, ?_, ?_, ?_⟩, ?_⟩
  · intro window member
    obtain ⟨absent, stashed⟩ := unstashed.mem_iff.mp member
    have inside := completing.inside_stash stashed absent
    exact ⟨inside.1, inside.2.trans_le completes.issues⟩
  · intro window own_window scheduled
    exact unstashed.fits (sound.fits_stash completing.own scheduled)
  · intro part window holds
    exact sound.inRange_stash asked (unstashed.holds_iff.mp holds).2
  · intro window
    refine completing.waiting_stash.trans ?_
    exact forall₂_congr fun part _ => unstashed.holds_iff.symm
  · rintro ⟨part, window⟩
    by_cases asked : part ∈ walk.phase.parts walk.peers
    · change part ∈ walk.phase.parts walk.peers ∧
        (cursor.nextFold ≤ window ∧ window < cursor.nextIssue) ∧
          ¬((parts[window]?).getD .empty).holds part = true ↔ _
      rw [unstashed.holds_iff, and_iff_right asked]
      refine (completing.expects_stash asked).trans (or_congr_right ?_)
      exact (and_iff_right asked).symm
    · refine iff_of_false (fun expects => asked expects.1) ?_
      rintro (⟨expects, _⟩ | ⟨listed, _⟩)
      · exact asked expects.1
      · exact asked listed

end Completing

def Delivery.read (delivery : Delivery) : IngestPart × Nat :=
  (delivery.part, delivery.ordinal)

theorem reads_of_peerFetches (own : window.ordinal = ordinal)
    (fetched : walk.peerFetches window ordinal peer = some fetches) :
    fetches.map IngestFetch.read = (walk.phase.peerParts peer).map fun part => (part, ordinal) := by
  unfold peerFetches at fetched
  split at fetched
  · cases fetched
  obtain ⟨values, _, fetched⟩ := bind_eq_some_iff.mp fetched
  cases phase : walk.phase with
  | norms =>
    rw [phase] at fetched
    cases fetched
    simp [IngestFetch.read, IngestPhase.peerParts, own]
  | fold =>
    rw [phase] at fetched
    obtain ⟨indices, _, fetched⟩ := bind_eq_some_iff.mp fetched
    cases fetched
    simp [IngestFetch.read, IngestPhase.peerParts, own]

theorem Geometry.reads_of_windowFetches (geometry : walk.Geometry)
    (fetched : walk.windowFetches ordinal = some fetches) :
    fetches.map IngestFetch.read =
      (walk.phase.parts walk.peers).map fun part => (part, ordinal) := by
  obtain ⟨window, scheduled, fetched⟩ := bind_eq_some_iff.mp fetched
  obtain ⟨payload, mapped, fetched⟩ := bind_eq_some_iff.mp fetched
  have own := geometry.ordinal_eq scheduled
  have reads := Lists.map_flatten_of_forall₂ IngestFetch.read
    ((Lists.mapM_eq_some_iff_forall₂.mp mapped).imp fun _ _ => reads_of_peerFetches own)
  unfold IngestPhase.parts
  rw [List.map_append, List.map_flatMap]
  cases phase : walk.phase with
  | norms =>
    rw [phase] at fetched reads
    cases fetched
    exact reads
  | fold =>
    rw [phase] at fetched reads
    cases fetched
    rw [List.map_cons, reads]
    simp [IngestFetch.read, own]

/-- Windows that are issued once have each of their parts read once. -/
theorem Geometry.count_fetchesFor (geometry : walk.Geometry) (distinct : ordinals.Nodup)
    (fetched : walk.fetchesFor ordinals = some fetches) (read : IngestPart × Nat) :
    (fetches.map IngestFetch.read).count read =
      if read.1 ∈ walk.phase.parts walk.peers ∧ read.2 ∈ ordinals then 1 else 0 := by
  obtain ⟨windows, mapped, built⟩ := bind_eq_some_iff.mp fetched
  cases built
  rw [Lists.map_flatten_of_forall₂ IngestFetch.read
    ((Lists.mapM_eq_some_iff_forall₂.mp mapped).imp fun _ _ => geometry.reads_of_windowFetches)]
  have member : (read ∈ ordinals.flatMap fun ordinal =>
      (walk.phase.parts walk.peers).map fun part => (part, ordinal)) ↔
      read.1 ∈ walk.phase.parts walk.peers ∧ read.2 ∈ ordinals := by
    obtain ⟨part, ordinal⟩ := read
    simp only [List.mem_flatMap, List.mem_map, Prod.mk.injEq]
    constructor
    · rintro ⟨window, issued, other, asked, rfl, rfl⟩
      exact ⟨asked, issued⟩
    · rintro ⟨asked, issued⟩
      exact ⟨ordinal, issued, part, asked, rfl, rfl⟩
  have once : (ordinals.flatMap fun ordinal =>
      (walk.phase.parts walk.peers).map fun part => (part, ordinal)).Nodup := by
    refine List.nodup_flatMap.mpr ⟨?_, distinct.imp ?_⟩
    · intro ordinal _
      exact (nodup_parts _ _).map fun first second same => (Prod.mk.inj same).1
    · intro first second different read inFirst inSecond
      obtain ⟨_, _, rfl⟩ := List.mem_map.mp inFirst
      obtain ⟨_, _, same⟩ := List.mem_map.mp inSecond
      exact different (Prod.mk.inj same).2.symm
  rw [once.count]
  simp only [member]

/-- A walk that was built and has not started. -/
structure Fresh (walk : SparseLocoIngestWalk F32 F64 Hasher) (inFlight peers : Nat) :
    Prop where
  geometry : walk.Geometry
  started : walk.started = false
  cursor : walk.walk = FoldWalk.new walk.schedule.length walk.inFlight
  empty : walk.parts = ∅
  nonempty : walk.phase.parts walk.peers ≠ []
  inFlight : walk.inFlight = inFlight
  peers : walk.peers = peers

/-- A walk whose opening slice has been returned: each read it asks for is expected
once. -/
structure Opened (opening : IngestSlice F32)
    (walk : SparseLocoIngestWalk F32 F64 Hasher) (inFlight peers : Nat) : Prop where
  sound : walk.Sound
  empty : walk.parts = ∅
  reads : ∀ read, (opening.issue.map IngestFetch.read).count read =
    if walk.Expects read then 1 else 0
  inFlight : walk.inFlight = inFlight
  peers : walk.peers = peers

theorem fresh_of_new {cfg : SparseLocoCfg F64} {windowSize inFlight peers : Nat}
    {carry : DigestCarry Hasher} (fits : (numels.map (· * stateElemBytes)).sum < 2 ^ 64)
    (built : new floats mode cfg numels windowSize inFlight peers carry = some (.ok walk)) :
    walk.Fresh inFlight peers := by
  unfold new at built
  split at built
  · cases built
  obtain ⟨_ | layout, laidOut, built⟩ := bind_eq_some_iff.mp built
  · cases built
  cases built
  obtain ⟨laid, chunk, _⟩ := PayloadLayout.laid_of_new fits laidOut
  refine ⟨⟨laid, rfl, chunk⟩, rfl, rfl, rfl, ?_, rfl, rfl⟩
  dsimp only
  split
  · rename_i clips
    rw [Bool.and_eq_true, decide_eq_true_eq] at clips
    exact List.ne_nil_of_mem (mem_parts_norms.mpr ⟨0, clips.2, rfl⟩)
  · exact fold_parts_ne_nil peers

/-- An opening slice asks once for each part of the windows it issues. -/
theorem opened_of_issue (walk : SparseLocoIngestWalk F32 F64 Hasher) (geometry : walk.Geometry)
    (started : walk.started = true) (nonempty : walk.phase.parts walk.peers ≠ [])
    (cursor : walk.walk = walk.opens.2)
    (empty : walk.parts = ∅)
    (fetched : walk.fetchesFor walk.opens.1.issue = some opening.issue) :
    Opened opening walk walk.inFlight walk.peers := by
  obtain ⟨sound, expects⟩ := sound_of_opening geometry started nonempty cursor empty
  refine ⟨sound, empty, ?_, rfl, rfl⟩
  intro read
  have distinct : walk.opens.1.issue.Nodup := by
    rw [(FoldWalk.start_valid _ _).2.1]
    exact List.nodup_range
  rw [geometry.count_fetchesFor distinct fetched]
  simp only [expects]

theorem opened_of_advanceToFold (walk : SparseLocoIngestWalk F32 F64 Hasher)
    (geometry : walk.Geometry) (started : walk.started = true)
    (advanced : walk.advanceToFold floats = some (opening, after)) :
    Opened opening after walk.inFlight walk.peers := by
  obtain ⟨scale, issue, rfl, fetched, rfl⟩ := advanceToFold_eq advanced
  exact opened_of_issue
    { walk with scale, phase := .fold, walk := walk.opens.2, parts := ∅ }
    { geometry with } started
    (fold_parts_ne_nil walk.peers) rfl rfl fetched

theorem opened_of_start {inFlight peers : Nat} (fresh : walk.Fresh inFlight peers)
    (begun : walk.start floats = some (.ok opening, after)) :
    Opened opening after inFlight peers := by
  obtain ⟨geometry, unstarted, cursor, empty, nonempty, rfl, rfl⟩ := fresh
  unfold start at begun
  rw [unstarted, cursor] at begun
  obtain ⟨issue, fetched, begun⟩ := bind_eq_some_iff.mp begun
  dsimp only at begun
  split at begun
  · obtain ⟨⟨first, opened⟩, advanced, built⟩ := bind_eq_some_iff.mp begun
    cases built
    exact opened_of_advanceToFold
      { walk with started := true, walk := walk.opens.2 }
      { geometry with } rfl advanced
  · cases begun
    exact opened_of_issue
      { walk with started := true, walk := walk.opens.2 }
      { geometry with } rfl nonempty rfl empty fetched

/-- The record of one delivery. -/
abbrev Delivered (F32 F64 Hasher : Type) :=
  Machine.Step (SparseLocoIngestWalk F32 F64 Hasher) Delivery (Except String (IngestSlice F32))

section

variable (opening : IngestSlice F32) (trace : List (Delivered F32 F64 Hasher))

/-- The slices of a run, in order. -/
def slices : List (IngestSlice F32) :=
  (Machine.emitted trace).filterMap Except.toOption

/-- The reads asked for by the opening slice and along a run. -/
def issuedReads : List (IngestPart × Nat) :=
  (opening :: slices trace).flatMap fun slice => slice.issue.map IngestFetch.read

/-- The reads delivered along a run; a refused delivery does not count. -/
def deliveredReads : List (IngestPart × Nat) :=
  trace.filterMap fun recorded =>
    if recorded.output.any Except.isOk then some recorded.input.read else none

/-- A read that was issued more often than delivered. -/
def Outstanding (read : IngestPart × Nat) : Prop :=
  (deliveredReads trace).count read < (issuedReads opening trace).count read

instance (read : IngestPart × Nat) : Decidable (Outstanding opening trace read) :=
  inferInstanceAs (Decidable (_ < _))

/-- Every delivery is of a read that is outstanding. -/
def Orderly : Prop :=
  ∀ earlier recorded later, trace = earlier ++ recorded :: later →
    Outstanding opening earlier recorded.input.read

end

instance : Decidable (Orderly opening trace) :=
  decidable_of_iff _ (Lists.forall_split_iff fun earlier recorded =>
    Outstanding opening earlier recorded.input.read).symm

theorem Orderly.of_append (orderly : Orderly opening (trace ++ rest)) : Orderly opening trace := by
  intro earlier recorded later parted
  exact orderly earlier recorded (later ++ rest)
    (by rw [parted, List.append_assoc, List.cons_append])

/-- What the state of an orderly walk says about its run. -/
structure Tracked (opening : IngestSlice F32) (inFlight peers : Nat)
    (trace : List (Delivered F32 F64 Hasher))
    (walk : SparseLocoIngestWalk F32 F64 Hasher) : Prop where
  sound : walk.Sound
  /-- Every read issued was delivered or is expected. -/
  reads : ∀ read, (issuedReads opening trace).count read =
    (deliveredReads trace).count read + if walk.Expects read then 1 else 0
  inFlight : walk.inFlight = inFlight
  peers : walk.peers = peers

section Runs

variable {inFlight peers : Nat}

theorem issuedReads_snoc_ok (slice : IngestSlice F32) :
    issuedReads opening (trace ++ [⟨walk, delivery, after, [.ok slice]⟩]) =
      issuedReads opening trace ++ slice.issue.map IngestFetch.read := by
  simp [issuedReads, slices, Except.toOption]

theorem deliveredReads_snoc_ok (slice : IngestSlice F32) :
    deliveredReads (trace ++ [⟨walk, delivery, after, [.ok slice]⟩]) =
      deliveredReads trace ++ [delivery.read] := by
  simp [deliveredReads, Except.isOk, Except.toBool]

/-- A read issued more often than delivered is expected. -/
theorem Tracked.expects (tracked : Tracked opening inFlight peers trace walk)
    {read : IngestPart × Nat} (outstanding : Outstanding opening trace read) :
    walk.Expects read := by
  by_contra unexpected
  rw [Outstanding, tracked.reads, if_neg unexpected] at outstanding
  omega

/-- A delivery that is answered takes its read off the expected ones and adds those
its slice asks for. -/
theorem Tracked.answered (tracked : Tracked opening inFlight peers trace walk) (sound : after.Sound)
    (sameInFlight : after.inFlight = walk.inFlight) (samePeers : after.peers = walk.peers)
    (expected : walk.Expects delivery.read)
    (counts : ∀ read, (slice.issue.map IngestFetch.read).count read +
        (if walk.Expects read ∧ read ≠ delivery.read then 1 else 0) =
      if after.Expects read then 1 else 0) :
    Tracked opening inFlight peers (trace ++ [⟨walk, delivery, after, [.ok slice]⟩]) after := by
  refine ⟨sound, ?_, sameInFlight.trans tracked.inFlight, samePeers.trans tracked.peers⟩
  intro read
  have before := tracked.reads read
  have now := counts read
  rw [issuedReads_snoc_ok, deliveredReads_snoc_ok, List.count_append, List.count_append,
    before, List.count_singleton]
  by_cases same : read = delivery.read
  · subst same
    rw [if_pos expected] at *
    simp only [ne_eq, not_true_eq_false, and_false, if_false] at now
    simp only [beq_self_eq_true, if_true]
    omega
  · have apart : (delivery.read == read) = false := by simpa using Ne.symm same
    simp only [same, ne_eq, not_false_eq_true, and_true] at now
    simp only [apart, Bool.false_eq_true, if_false]
    omega

theorem step_eq_some_iff :
    step floats xxh walk delivery = some (after, output) ↔
      ∃ answer, output = [answer] ∧ Delivers floats xxh walk delivery.part
        delivery.ordinal delivery.bytes answer after := by
  unfold step
  constructor
  · intro stepped
    obtain ⟨⟨answer, reached⟩, returned, built⟩ := bind_eq_some_iff.mp stepped
    cases built
    exact ⟨answer, rfl, onPartReady_eq_some_iff.mp returned⟩
  · rintro ⟨answer, rfl, delivers⟩
    rw [onPartReady_eq_some_iff.mpr delivers]
    rfl

/-- A part that completes an outstanding window is folded, and answered by the next
reads: of the phase, or of the fold pass when the norms are done. -/
theorem Sound.advances (sound : walk.Sound) (asked : arrival.part.InRange walk.peers)
    (own : ∀ window, walk.schedule[ordinal]? = some window → arrival.Fits walk.layout window)
    (complete : (walk.stash ordinal arrival).windowComplete ordinal = true)
    (completed : walk.walk.onCompletion ordinal = (.ok actions, cursor))
    (advanced : advance floats xxh { walk.stash ordinal arrival with walk := cursor }
      actions = some (answer, after)) :
    FoldWalk.Completes walk.walk ordinal actions cursor ∧ cursor.Valid ∧
      (∀ window ∈ actions.fold, Ready { walk.stash ordinal arrival with walk := cursor } window) ∧
      ∃ emitted middle,
        foldWindows floats xxh actions.fold
            { walk.stash ordinal arrival with walk := cursor } =
          some (.ok emitted, middle) ∧ middle.Sound ∧
        (∀ read, middle.Expects read ↔
          (walk.Expects read ∧ read ≠ (arrival.part, ordinal)) ∨
            (read.1 ∈ walk.phase.parts walk.peers ∧ read.2 ∈ actions.issue)) ∧
        ((actions.seals = true ∧ walk.phase = .norms ∧
            ∃ opening, middle.advanceToFold floats = some (opening, after) ∧
              answer = .ok ⟨emitted, opening.issue, opening.sealed⟩) ∨
          (after = middle ∧ ∃ issue, middle.fetchesFor actions.issue = some issue ∧
            answer = .ok ⟨emitted, issue, actions.seals⟩)) := by
  have expected : ¬(ordinal < walk.walk.nextFold ∨ walk.walk.nextIssue ≤ ordinal ∨
      ordinal ∈ walk.walk.pending) := by
    intro unasked
    rw [FoldWalk.onCompletion_refused unasked] at completed
    cases completed
  obtain ⟨others, after_cursor, answered, completes, valid⟩ :=
    FoldWalk.onCompletion_accepted sound.valid expected
  cases completed.symm.trans answered
  push Not at expected
  have completing : Completing walk ordinal arrival actions cursor :=
    { sound, own, completes, valid
      between := ⟨expected.1, expected.2.1⟩
      full := (windowComplete_iff (walk.stash ordinal arrival) sound.nonempty
        fun part => sound.inRange_stash asked).mp complete }
  have ready : ∀ window ∈ actions.fold,
      Ready { walk.stash ordinal arrival with walk := cursor } window :=
    fun _ => completing.folds_ready
  have geometry : Geometry { walk.stash ordinal arrival with walk := cursor } :=
    { sound.geometry with }
  obtain ⟨emitted, middle, looped, outcome⟩ := advance_cases
    (fun folded next => geometry.foldWindows_ok completes.nodup_fold ready) advanced
  obtain ⟨middleSound, expects⟩ := completing.accepted asked looped
  refine ⟨completes, valid, ready, emitted, middle, looped, middleSound, expects, ?_⟩
  obtain ⟨_, _, _, rfl, _, _⟩ := foldWindows_frame looped
  rcases outcome with ⟨seals, phase, opening, advances, answered⟩ | ⟨_, rfl, issue⟩
  · exact .inl ⟨seals, phase, opening, advances, answered⟩
  · exact .inr ⟨rfl, issue⟩

theorem Sound.outstanding (sound : walk.Sound) {read : IngestPart × Nat}
    (expected : walk.Expects read) :
    ¬(read.2 < walk.walk.nextFold ∨ walk.walk.nextIssue ≤ read.2 ∨ read.2 ∈ walk.walk.pending) := by
  obtain ⟨asked, ⟨low, high⟩, absent⟩ := expected
  rintro (early | late | waits)
  · omega
  · omega
  · exact absent ((sound.waiting _).mp waits _ asked)

/-- Every delivery of an orderly run keeps the state in step with the history. -/
theorem Tracked.delivered (tracked : Tracked opening inFlight peers trace walk)
    (outstanding : Outstanding opening trace delivery.read)
    {output : List (Except String (IngestSlice F32))}
    (stepped : step floats xxh walk delivery = some (after, output)) :
    Tracked opening inFlight peers (trace ++ [⟨walk, delivery, after, output⟩]) after := by
  have sound := tracked.sound
  have expected := tracked.expects outstanding
  obtain ⟨answer, rfl, delivers⟩ := step_eq_some_iff.mp stepped
  cases delivers with
  | unstarted unstarted =>
    rw [sound.started] at unstarted
    cases unstarted
  | torn _ _ =>
    refine ⟨sound, ?_, tracked.inFlight, tracked.peers⟩
    simpa [issuedReads, slices, deliveredReads, List.filterMap_cons, Except.toOption, Except.isOk,
      Except.toBool] using tracked.reads
  | @arriving arrival _ decoded incomplete =>
    obtain ⟨same, own⟩ := sound.geometry.fits_of_decodePart decoded
    have read_eq : delivery.read = (arrival.part, delivery.ordinal) := by
      rw [same]
      rfl
    rw [read_eq] at expected
    obtain ⟨stashSound, expects⟩ := sound.arriving expected own incomplete
    refine tracked.answered stashSound rfl rfl (read_eq ▸ expected) ?_
    intro read
    simp [expects, read_eq]
  | refused _ _ _ unasked => exact absurd unasked (sound.outstanding expected)
  | @accepted arrival actions cursor _ _ _ decoded complete completed advanced =>
    obtain ⟨same, own⟩ := sound.geometry.fits_of_decodePart decoded
    have read_eq : delivery.read = (arrival.part, delivery.ordinal) := by
      rw [same]
      rfl
    have asked : arrival.part.InRange walk.peers := by
      rw [same]
      exact inRange_of_mem_parts expected.1
    obtain ⟨completes, valid, _, emitted, middle, looped, middleSound, expects,
      outcome⟩ := sound.advances asked own complete completed advanced
    obtain ⟨_, _, _, rfl, _, _⟩ := foldWindows_frame looped
    rcases outcome with ⟨seals, phase, first, advances, rfl⟩ | ⟨rfl, issue, fetched, rfl⟩
    · have opened := opened_of_advanceToFold _ middleSound.geometry middleSound.started advances
      refine tracked.answered opened.sound opened.inFlight opened.peers expected ?_
      intro read
      rw [opened.reads]
      -- the norms are done: nothing but the last part was still expected
      have last : ¬(walk.Expects read ∧ read ≠ delivery.read) := by
        intro earlier
        rw [read_eq] at earlier
        have between := ((expects read).mpr (.inl earlier)).2.1
        have finished := (completes.seals.mp seals).trans completes.total.symm
        have bounded := valid.bounded
        dsimp only at between
        omega
      rw [if_neg last]
      rfl
    · refine tracked.answered middleSound rfl rfl expected ?_
      intro read
      have distinct : actions.issue.Nodup := by
        rw [completes.issue]
        exact List.nodup_range'
      have counted : (issue.map IngestFetch.read).count read =
          if read.1 ∈ walk.phase.parts walk.peers ∧ read.2 ∈ actions.issue then 1
          else 0 := middleSound.geometry.count_fetchesFor distinct fetched read
      have apart : read.2 ∈ actions.issue → ¬walk.Expects read := by
        intro issued expected
        rw [completes.issue, List.mem_range'_1] at issued
        have below := expected.2.1.2
        omega
      dsimp only
      rw [counted, read_eq]
      simp only [expects]
      by_cases issued : read.1 ∈ walk.phase.parts walk.peers ∧ read.2 ∈ actions.issue
      · rw [if_pos issued, if_neg (fun expected => apart issued.2 expected.1), if_pos (.inr issued)]
      · rw [if_neg issued, Nat.zero_add]
        simp only [issued, or_false]

/-- Every orderly run keeps the state in step with its history. -/
theorem tracked_of_run {started : SparseLocoIngestWalk F32 F64 Hasher}
    (opened : Opened opening started inFlight peers)
    (run : Machine.Run (Machine.graph (step floats xxh)) started trace walk)
    (orderly : Orderly opening trace) :
    Tracked opening inFlight peers trace walk := by
  induction run with
  | nil =>
    refine ⟨opened.sound, ?_, opened.inFlight, opened.peers⟩
    intro read
    simpa [issuedReads, slices, deliveredReads] using opened.reads read
  | snoc _ stepped ih =>
    exact (ih orderly.of_append).delivered (orderly _ _ [] rfl) stepped

theorem exists_run_of_check (floats : Floats F32 F64) (xxh : Xxh3 Hasher) (mode : Overflow)
    (cfg : SparseLocoCfg F64) (numels : List Nat) (windowSize inFlight peers : Nat)
    (carry : DigestCarry Hasher) (deliveries : List Delivery)
    (holds : IngestSlice F32 → List (Delivered F32 F64 Hasher) →
      SparseLocoIngestWalk F32 F64 Hasher → Prop)
    (checked : ∃ result ∈ new floats mode cfg numels windowSize inFlight peers carry,
      ∃ fresh ∈ result.toOption, ∃ begun ∈ fresh.start floats, ∃ opening ∈ begun.1.toOption,
        ∃ done ∈ Machine.exec (step floats xxh) begun.2 deliveries, holds opening done.1 done.2) :
    ∃ fresh opening started trace walk,
      new floats mode cfg numels windowSize inFlight peers carry = some (.ok fresh) ∧
        fresh.start floats = some (.ok opening, started) ∧
          Machine.Run (Machine.graph (step floats xxh)) started trace walk ∧
            holds opening trace walk := by
  obtain ⟨_ | fresh, built, _, ⟨⟩, ⟨_ | opening, started⟩, begun, _, ⟨⟩, done, executed, held⟩ :=
    checked
  exact ⟨fresh, opening, started, done.1, done.2, built, begun, .of_exec executed, held⟩

end Runs

end SparseLocoIngestWalk
end DaemonNode
