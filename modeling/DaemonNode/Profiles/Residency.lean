import DaemonNode.Profiles.Arrivals

/-!
# How much a streamed walk holds

A walk is meant to hold the inputs of at most `inFlight` windows, and its memory
budget is computed from that. The refill counts the reads that have not come
back, not the windows that wait for an earlier one: while the oldest read is
late, every read behind it is replaced by a new one, and the stash grows up to
the whole layout.
-/

namespace DaemonNode

open Machine
open DetState (stateElemBytes)
open Word (Overflow)

namespace FoldWalk

/-- The windows that wait lie close to the fold. -/
def Near (walk : FoldWalk) : Prop :=
  ∀ window ∈ walk.pending, window < walk.nextFold + walk.inFlight

/-- A read close to the fold keeps the waiting windows close, and folds at most
`inFlight` of them. -/
theorem Completes.near (completes : Completes walk ordinal actions after) (near : walk.Near)
    (close : ordinal < walk.nextFold + walk.inFlight) :
    after.nextFold - walk.nextFold ≤ walk.inFlight ∧ after.Near := by
  have advances := completes.advances
  have short : after.nextFold ≤ walk.nextFold + walk.inFlight := by
    by_contra long
    have folded : walk.nextFold + walk.inFlight < after.nextFold := by omega
    rcases completes.read_of_folded folded (Nat.le_add_right _ _) with waiting | same
    · exact lt_irrefl _ (near _ waiting)
    · omega
  refine ⟨by omega, ?_⟩
  intro window waiting
  rw [completes.inFlight]
  rcases (completes.completed window).mp (.inr waiting) with (early | earlier) | rfl
  · omega
  · have := near window earlier
    omega
  · omega

end FoldWalk

namespace WalkCore

/-- The record of one completed read. -/
abbrev Completed (T : Type) :=
  Step (WalkCore T) (Nat × T) (Except String (List (Window × T) × List Window × Bool))

/-- No read is delivered that lies `inFlight` windows or more past the fold. -/
def Close (trace : List (Completed T)) : Prop :=
  ∀ recorded ∈ trace, recorded.input.1 <
    recorded.before.walk.nextFold + recorded.before.walk.inFlight

/-- After every read at most `limit` windows are stashed, and none folds more. -/
def Resident (limit : Nat) (trace : List (Completed T)) : Prop :=
  ∀ recorded ∈ trace, recorded.after.pending.size ≤ limit ∧
    ∀ slice ∈ recorded.output.filterMap Except.toOption, slice.1.length ≤ limit

section Core

variable {core after : WalkCore T}

instance (trace : List (Completed T)) : Decidable (Close trace) :=
  inferInstanceAs (Decidable (∀ recorded ∈ trace, _))

/-- The stash holds the windows the schedule has waiting, close to the fold. -/
structure Bounded (core : WalkCore T) : Prop where
  started : core.started = true
  valid : core.walk.Valid
  stashed : ∀ window, window ∈ core.pending ↔ window ∈ core.walk.pending
  near : core.walk.Near

theorem Bounded.size_le (bounded : core.Bounded) : core.pending.size ≤ core.walk.inFlight := by
  have inside : ∀ window ∈ core.pending, core.walk.nextFold ≤ window ∧
      window < core.walk.nextFold + core.walk.inFlight := by
    intro window member
    have waiting := (bounded.stashed window).mp member
    exact ⟨(bounded.valid.inside window waiting).1.le, bounded.near window waiting⟩
  have counted := Maps.size_le_of_keys inside
  omega

theorem takeFolds_spec {schedule : List Window} {pending rest : Std.ExtTreeMap Nat T}
    {folds : Except String (List (Window × T))} (distinct : ordinals.Nodup)
    (stashed : ∀ window ∈ ordinals, window ∈ pending)
    (taken : takeFolds schedule ordinals pending = some (folds, rest)) :
    (∃ done, folds = .ok done ∧ done.length = ordinals.length) ∧
      ∀ window, window ∈ rest ↔ window ∈ pending ∧ window ∉ ordinals := by
  induction ordinals generalizing pending folds with
  | nil =>
    cases taken
    exact ⟨⟨[], rfl, rfl⟩, by simp⟩
  | cons ordinal ordinals ih =>
    obtain ⟨absent, distinct⟩ := List.nodup_cons.mp distinct
    obtain ⟨input, found⟩ : ∃ input, pending[ordinal]? = some input := by
      rw [← Option.isSome_iff_exists]
      simpa using stashed ordinal List.mem_cons_self
    rw [takeFolds, found] at taken
    obtain ⟨window, _, taken⟩ := Option.bind_eq_some_iff.mp taken
    obtain ⟨⟨later, left⟩, taken, built⟩ := Option.bind_eq_some_iff.mp taken
    cases built
    have still : ∀ window ∈ ordinals, window ∈ pending.erase ordinal := by
      intro window member
      rw [Std.ExtTreeMap.mem_erase]
      refine ⟨?_, stashed window (List.mem_cons_of_mem _ member)⟩
      rw [ne_eq, Nat.compare_eq_eq]
      rintro rfl
      exact absent member
    obtain ⟨⟨done, rfl, length⟩, kept⟩ := ih distinct still taken
    refine ⟨⟨_, rfl, ?_⟩, ?_⟩
    · rw [List.length_cons, List.length_cons, length]
    · intro window
      rw [kept, Std.ExtTreeMap.mem_erase, ne_eq, Nat.compare_eq_eq, List.mem_cons, not_or]
      constructor
      · rintro ⟨⟨other, member⟩, later⟩
        exact ⟨member, Ne.symm other, later⟩
      · rintro ⟨member, other, later⟩
        exact ⟨⟨Ne.symm other, member⟩, later⟩

/-- A read close to the fold keeps the stash bounded. -/
theorem Bounded.ready (bounded : core.Bounded)
    (close : ordinal < core.walk.nextFold + core.walk.inFlight)
    {answer : Except String (List (Window × T) × List Window × Bool)}
    (returned : core.ready ordinal input = some (answer, after)) :
    after.Bounded ∧ after.walk.inFlight = core.walk.inFlight ∧
      ∀ slice, answer = .ok slice → slice.1.length ≤ core.walk.inFlight := by
  unfold WalkCore.ready at returned
  rw [if_neg (by simp [bounded.started])] at returned
  by_cases unasked : ordinal < core.walk.nextFold ∨ core.walk.nextIssue ≤ ordinal ∨
      ordinal ∈ core.walk.pending
  · rw [FoldWalk.onCompletion_refused unasked] at returned
    cases returned
    exact ⟨{ bounded with }, rfl, by simp⟩
  · obtain ⟨actions, cursor, answered, completes, valid⟩ :=
      FoldWalk.onCompletion_accepted bounded.valid unasked
    rw [answered] at returned
    obtain ⟨⟨folds, pending⟩, taken, returned⟩ := Option.bind_eq_some_iff.mp returned
    have inserted : ∀ window, window ∈ core.pending.insert ordinal input ↔
        window ∈ core.walk.pending ∨ window = ordinal := by
      intro window
      rw [Std.ExtTreeMap.mem_insert, Nat.compare_eq_eq, bounded.stashed, or_comm, eq_comm]
    have distinct : actions.fold.Nodup := by
      rw [completes.fold]
      exact List.nodup_range'
    obtain ⟨⟨done, rfl, length⟩, kept⟩ := takeFolds_spec distinct (fun window member => by
      obtain ⟨fresh, folded⟩ := completes.mem_fold_iff.mp member
      exact (inserted window).mpr (completes.read_of_folded folded fresh)) taken
    obtain ⟨short, near⟩ := completes.near bounded.near close
    obtain ⟨issue, _, built⟩ := Option.bind_eq_some_iff.mp returned
    cases built
    refine ⟨⟨bounded.started, valid, ?_, near⟩, completes.inFlight, ?_⟩
    · intro window
      dsimp only
      rw [kept, inserted, completes.mem_fold_iff]
      have completed := completes.completed window
      have ahead : window ∈ cursor.pending → cursor.nextFold < window :=
        fun waits => (valid.inside window waits).1
      have before : window ∈ core.walk.pending → core.walk.nextFold < window :=
        fun waits => (bounded.valid.inside window waits).1
      push Not at unasked
      constructor
      · rintro ⟨waits, outside⟩
        refine (completed.mpr ?_).resolve_left ?_
        · exact waits.imp_left .inr
        · rcases waits with waits | rfl
          · have := before waits
            omega
          · omega
      · intro waits
        have := ahead waits
        have advances := completes.advances
        refine ⟨?_, by omega⟩
        rcases completed.mp (.inr waits) with (early | earlier) | same
        · omega
        · exact .inl earlier
        · exact .inr same
    · rintro slice ⟨⟩
      rw [length, completes.fold, List.length_range']
      exact short

/-- A started core has nothing stashed. -/
theorem bounded_of_start (built : new mode numels windowSize inFlight = some fresh)
    (begun : fresh.start = some (.ok opening, core)) :
    core.Bounded ∧ core.walk.inFlight = max inFlight 1 := by
  obtain ⟨schedule, _, built⟩ := Option.bind_eq_some_iff.mp built
  cases built
  obtain ⟨valid, _, _, _, limit, _, pending⟩ := FoldWalk.start_valid schedule.length inFlight
  unfold WalkCore.start at begun
  dsimp only at begun
  rw [if_neg (by simp)] at begun
  generalize (FoldWalk.new schedule.length inFlight).start = first at *
  obtain ⟨issue, _, returned⟩ := Option.bind_eq_some_iff.mp begun
  cases returned
  refine ⟨⟨rfl, valid, ?_, ?_⟩, limit⟩
  · simp [pending]
  · intro window waits
    simp [pending] at waits

/-- A core whose reads arrive close to the fold stays within the bound. -/
theorem resident_of_close {started : WalkCore T} (bounded : started.Bounded)
    (limit_eq : started.walk.inFlight = limit)
    (run : Run (graph step) started trace core) (close : Close trace) :
    Resident limit trace := by
  suffices reached : core.Bounded ∧ core.walk.inFlight = limit ∧ Resident limit trace from
    reached.2.2
  induction run with
  | nil => exact ⟨bounded, limit_eq, by simp [Resident]⟩
  | @snoc trace core read after output _ stepped ih =>
    obtain ⟨earlier, last⟩ := Lists.forall_mem_concat.mp close
    obtain ⟨bounded, rfl, resident⟩ := ih earlier
    obtain ⟨⟨answer, reached⟩, returned, built⟩ := Option.bind_eq_some_iff.mp stepped
    cases built
    obtain ⟨still, limit_eq, folds⟩ := bounded.ready last returned
    refine ⟨still, limit_eq, Lists.forall_mem_concat.mpr ⟨resident, limit_eq ▸ still.size_le, ?_⟩⟩
    intro slice answered
    cases answer with
    | error refusal => simp [Except.toOption] at answered
    | ok answer =>
      obtain rfl : slice = answer := by simpa [Except.toOption] using answered
      exact folds slice rfl

theorem exists_run_of_check (mode : Overflow) (numels : List Nat) (windowSize inFlight : Nat)
    (reads : List (Nat × T)) (holds : List (Completed T) → WalkCore T → Prop)
    (checked : ∃ fresh ∈ new mode numels windowSize inFlight, ∃ begun ∈ fresh.start,
      ∃ _opening ∈ begun.1.toOption, ∃ done ∈ exec step begun.2 reads, holds done.1 done.2) :
    ∃ fresh opening started trace core,
      new mode numels windowSize inFlight = some fresh ∧
        fresh.start = some (.ok opening, started) ∧
          Run (graph step) started trace core ∧ holds trace core := by
  obtain ⟨fresh, built, ⟨_ | opening, started⟩, begun, _, ⟨⟩, done, executed, held⟩ := checked
  exact ⟨fresh, opening, started, done.1, done.2, built, begun, .of_exec executed, held⟩

end Core

end WalkCore

namespace SparseLocoIngestWalk

/-- No part is delivered of a window that lies `inFlight` windows or more past the
fold. -/
def Close (trace : List (Delivered F32 F64 Hasher)) : Prop :=
  ∀ recorded ∈ trace, recorded.input.ordinal <
    recorded.before.walk.nextFold + recorded.before.walk.inFlight

/-- The number of windows a delivery folded. -/
def foldedCount (recorded : Delivered F32 F64 Hasher) : Nat :=
  (if recorded.after.phase = recorded.before.phase then recorded.after.walk.nextFold
  else recorded.before.walk.total) - recorded.before.walk.nextFold

/-- After every delivery at most `limit` windows have parts stashed, and none folds
more. -/
def Resident (limit : Nat) (trace : List (Delivered F32 F64 Hasher)) : Prop :=
  ∀ recorded ∈ trace, recorded.after.parts.size ≤ limit ∧ foldedCount recorded ≤ limit

instance (trace : List (Delivered F32 F64 Hasher)) : Decidable (Close trace) :=
  inferInstanceAs (Decidable (∀ recorded ∈ trace, _))

section Ingest

variable {walk after : SparseLocoIngestWalk F32 F64 Hasher}
variable {inFlight peers : Nat}

/-- The windows with parts stashed lie close to the fold. -/
def Near (walk : SparseLocoIngestWalk F32 F64 Hasher) : Prop :=
  ∀ window ∈ walk.parts, window < walk.walk.nextFold + walk.walk.inFlight

theorem Sound.size_le (sound : walk.Sound) (near : walk.Near) :
    walk.parts.size ≤ walk.walk.inFlight := by
  have inside : ∀ window ∈ walk.parts, walk.walk.nextFold ≤ window ∧
      window < walk.walk.nextFold + walk.walk.inFlight :=
    fun window member => ⟨(sound.inside window member).1, near window member⟩
  have counted := Maps.size_le_of_keys inside
  omega

/-- Windows that wait are stashed, so they are close when the stash is. -/
theorem Sound.near_walk (sound : walk.Sound) (near : walk.Near) : walk.walk.Near := by
  intro window waits
  obtain ⟨first, member⟩ := List.exists_mem_of_ne_nil _ sound.nonempty
  exact near window (mem_parts_of_held ((sound.waiting window).mp waits first member))

/-- A delivery close to the fold keeps the stash close, and folds at most `inFlight`
windows. -/
theorem Tracked.near (tracked : Tracked opening inFlight peers trace walk) (near : walk.Near)
    (outstanding : Outstanding opening trace delivery.read)
    (close : delivery.ordinal < walk.walk.nextFold + walk.walk.inFlight)
    (stepped : step floats xxh walk delivery = some (after, output)) :
    after.Near ∧ foldedCount ⟨walk, delivery, after, output⟩ ≤ walk.walk.inFlight := by
  have sound := tracked.sound
  have expected := tracked.expects outstanding
  obtain ⟨answer, rfl, delivers⟩ := step_eq_some_iff.mp stepped
  cases delivers with
  | unstarted | torn => exact ⟨near, by simp [foldedCount]⟩
  | @arriving arrival _ _ _ =>
    refine ⟨?_, by simp [foldedCount, stash]⟩
    intro window member
    rcases Std.ExtTreeMap.mem_insert.mp member with equal | earlier
    · rw [← Nat.compare_eq_eq.mp equal]
      exact close
    · exact near window earlier
  | refused _ _ _ unasked => exact absurd unasked (sound.outstanding expected)
  | @accepted arrival actions cursor _ _ _ decoded complete completed advanced =>
    obtain ⟨same, own⟩ := sound.geometry.fits_of_decodePart decoded
    have asked : arrival.part.InRange walk.peers := by
      rw [same]
      exact inRange_of_mem_parts expected.1
    obtain ⟨completes, valid, _, emitted, middle, looped, middleSound, _, outcome⟩ :=
      sound.advances asked own complete completed advanced
    obtain ⟨short, _⟩ := completes.near (sound.near_walk near) close
    obtain ⟨parts, _, _, rfl, unstashed⟩ := unstashed_of_foldWindows looped
    rcases outcome with ⟨seals, phase, first, advances, rfl⟩ | ⟨rfl, _⟩
    · obtain ⟨scale, issue, rfl, _, _⟩ := advanceToFold_eq advances
      refine ⟨fun window member => by simp at member, ?_⟩
      have finished := completes.seals.mp seals
      simp only [foldedCount, phase, reduceCtorEq, if_false]
      omega
    · refine ⟨?_, ?_⟩
      · intro window member
        have stashed := (unstashed.mem_iff.mp member).2
        have advances := completes.advances
        dsimp only
        rw [completes.inFlight]
        rcases Std.ExtTreeMap.mem_insert.mp stashed with equal | earlier
        · rw [← Nat.compare_eq_eq.mp equal]
          omega
        · have := near window earlier
          omega
      · simpa [foldedCount, stash] using short

/-- A walk whose reads arrive once, close to the fold, stays within the bound. -/
theorem resident_of_close {started : SparseLocoIngestWalk F32 F64 Hasher}
    (opened : Opened opening started inFlight peers)
    (run : Run (graph (step floats xxh)) started trace walk)
    (orderly : Orderly opening trace) (close : Close trace) :
    Resident (max inFlight 1) trace := by
  suffices reached : walk.Near ∧ Resident (max inFlight 1) trace from reached.2
  induction run with
  | nil => exact ⟨fun window member => by simp [opened.empty] at member, by simp [Resident]⟩
  | @snoc trace walk delivery after output earlier stepped ih =>
    have before : Orderly opening trace := orderly.of_append
    have tracked := tracked_of_run opened earlier before
    have stillTracked := tracked_of_run opened (.snoc earlier stepped) orderly
    obtain ⟨sooner, last⟩ := Lists.forall_mem_concat.mp close
    obtain ⟨near, resident⟩ := ih before sooner
    obtain ⟨still, short⟩ := tracked.near near (orderly trace _ [] rfl) last stepped
    refine ⟨still, ?_⟩
    have size := stillTracked.sound.size_le still
    rw [stillTracked.sound.inFlight, stillTracked.inFlight] at size
    rw [tracked.sound.inFlight, tracked.inFlight] at short
    exact Lists.forall_mem_concat.mpr ⟨resident, size, short⟩

end Ingest

end SparseLocoIngestWalk

/-- The window count a guest's budget is computed for. -/
def walkInFlightLimit : Nat := 4

/-- The memory a guest grants the windows in flight. -/
def walkWindowBudgetBytes : Nat := 16 * 2 ^ 20

/-- The in-flight bound a guest picks for a walk that holds several inputs a
window. -/
def walkInFlight (windowSize inputsPerWindow : Nat) : Nat :=
  let perWindow := max (Word.saturatingMul 64 windowSize inputsPerWindow) 1
  min (max (walkWindowBudgetBytes / perWindow) 1) walkInFlightLimit

/-- The windows of a guest's in-flight bound fit its budget, when one does. -/
theorem walkInFlight_mul_le (one : windowSize * inputsPerWindow ≤ walkWindowBudgetBytes) :
    walkInFlight windowSize inputsPerWindow * (windowSize * inputsPerWindow) ≤
      walkWindowBudgetBytes := by
  have small : windowSize * inputsPerWindow < 2 ^ 64 := one.trans_lt (by decide)
  unfold walkInFlight
  dsimp only
  rw [Word.saturatingMul]
  generalize windowSize * inputsPerWindow = bytes at *
  rw [Nat.min_eq_left (show bytes ≤ 2 ^ 64 - 1 by omega)]
  calc min (max (walkWindowBudgetBytes / max bytes 1) 1) walkInFlightLimit * bytes
      ≤ max (walkWindowBudgetBytes / max bytes 1) 1 * bytes :=
        Nat.mul_le_mul_right _ (Nat.min_le_left _ _)
    _ ≤ walkWindowBudgetBytes := by
        rcases Nat.eq_zero_or_pos bytes with rfl | positive
        · simp
        · rw [Nat.max_eq_left positive, Nat.max_eq_left]
          · exact Nat.div_mul_le_self _ _
          · exact (Nat.one_le_div_iff positive).mpr one

open SparseLocoIngestWalk (foldedCount exists_run_of_check fresh_of_new)

/-- While no window is delivered that lies `inFlight` windows or more past the
oldest unfolded one, the shared core and the ingest walk hold the inputs of at
most `inFlight` windows and fold at most that many at once. With the guest's
bound those inputs then fit its budget. -/
theorem residency_of_close_arrivals (mode : Overflow) (numels : List Nat)
    (windowSize inFlight : Nat) (positive : 1 ≤ inFlight)
    (fits : (numels.map (· * stateElemBytes)).sum < 2 ^ 64) :
    (∀ (T : Type) (fresh started core : WalkCore T) opening trace,
      WalkCore.new mode numels windowSize inFlight = some fresh →
      fresh.start = some (.ok opening, started) →
      Run (graph WalkCore.step) started trace core →
      WalkCore.Close trace →
      WalkCore.Resident inFlight trace) ∧
    (∀ (F32 F64 Hasher : Type) (floats : Floats F32 F64) (xxh : Xxh3 Hasher) cfg peers carry
        (fresh started walk : SparseLocoIngestWalk F32 F64 Hasher) opening trace,
      SparseLocoIngestWalk.new floats mode cfg numels windowSize inFlight peers carry =
        some (.ok fresh) →
      fresh.start floats = some (.ok opening, started) →
      Run (graph (SparseLocoIngestWalk.step floats xxh)) started trace walk →
      SparseLocoIngestWalk.Orderly opening trace →
      SparseLocoIngestWalk.Close trace →
      SparseLocoIngestWalk.Resident inFlight trace) ∧
    ∀ inputsPerWindow, windowSize * inputsPerWindow ≤ walkWindowBudgetBytes →
      inFlight = walkInFlight windowSize inputsPerWindow →
        inFlight * (windowSize * inputsPerWindow) ≤ walkWindowBudgetBytes := by
  refine ⟨?_, ?_, ?_⟩
  · intro T fresh started core opening trace built begun run close
    obtain ⟨bounded, limit⟩ := WalkCore.bounded_of_start built begun
    exact WalkCore.resident_of_close bounded (limit.trans (Nat.max_eq_left positive)) run close
  · intro F32 F64 Hasher floats xxh cfg peers carry fresh started walk opening trace
      built begun run orderly close
    have opened := SparseLocoIngestWalk.opened_of_start (fresh_of_new fits built) begun
    rw [← Nat.max_eq_left positive]
    exact SparseLocoIngestWalk.resident_of_close opened run orderly close
  · rintro inputsPerWindow one rfl
    exact walkInFlight_mul_le one

/-- Numbers that stand for floats: their bits. -/
def sampleFloats : Floats Nat Nat where
  ofNat := id
  add := (· + ·)
  sub := (· - ·)
  mul := (· * ·)
  div := (· / ·)
  sqrt := Nat.sqrt
  ofHalfBits := id
  toLe := toLeBytes 4
  ofLe := fromLeBytes
  widen := id
  narrow := id
  ofNat64 := id
  half64 := 1
  infinity64 := 2 ^ 64
  add64 := (· + ·)
  mul64 := (· * ·)
  div64 := (· / ·)
  neg64 := id
  lt64 := fun left right => decide (left < right)
  totalLe64 := fun left right => decide (left ≤ right)

/-- One value and one index a row, without a clip. -/
def sampleCfg : SparseLocoCfg Nat :=
  { chunk := 1, topk := 1, bits := 1, outerAlpha := 1, clip := false }

/-- A carry that has seen nothing. -/
def sampleCarry : DigestCarry (Nat × List Byte) :=
  { hasher := sampleXxh3.withSeed 0, blockSize := 64, offset := 0 }

/-- All the parts of a window of one element, for a walk with one peer. -/
def sampleWindow (ordinal : Nat) (element : Byte) : List SparseLocoIngestWalk.Delivery :=
  [⟨.roundBase, ordinal, [element, 0, 0, 0]⟩, ⟨.values 0, ordinal, [0, 0, 0]⟩,
    ⟨.indices 0, ordinal, []⟩]

/-- Four windows, two in flight, that arrive nearly in order. -/
theorem four_windows_resident :
    (∃ (started core : WalkCore Unit) (trace : List (WalkCore.Completed Unit)),
      Run (graph WalkCore.step) started trace core ∧
        core.isSealed = true ∧ WalkCore.Resident 2 trace) ∧
    ∃ (started walk : SparseLocoIngestWalk Nat Nat (Nat × List Byte))
        (trace : List (SparseLocoIngestWalk.Delivered Nat Nat (Nat × List Byte))),
      Run (graph (SparseLocoIngestWalk.step sampleFloats sampleXxh3)) started trace walk ∧
        walk.walk.sealed = true ∧ SparseLocoIngestWalk.Resident 2 trace := by
  obtain ⟨cores, walks, _⟩ := residency_of_close_arrivals .trap [4] 4 2 (by decide) (by decide)
  constructor
  · obtain ⟨fresh, opening, started, trace, core, built, begun, run, seals, close⟩ :=
      WalkCore.exists_run_of_check .trap [4] 4 2 [(1, ()), (0, ()), (2, ()), (3, ())]
        (fun trace core => core.isSealed = true ∧ WalkCore.Close trace) (by decide +kernel)
    exact ⟨started, core, trace, run, seals, cores _ _ _ _ _ _ built begun run close⟩
  · obtain ⟨fresh, opening, started, trace, walk, built, begun, run, seals, orderly, close⟩ :=
      exists_run_of_check sampleFloats sampleXxh3 .trap sampleCfg [4] 4
        2 1 sampleCarry ([1, 0, 2, 3].flatMap fun ordinal => sampleWindow ordinal 7)
        (fun opening trace walk => walk.walk.sealed = true ∧
          SparseLocoIngestWalk.Orderly opening trace ∧ SparseLocoIngestWalk.Close trace)
        (by decide +kernel)
    exact ⟨started, walk, trace, run, seals,
      walks _ _ _ _ _ _ _ _ _ _ _ _ _ built begun run orderly close⟩

/-- Two windows in flight and a late first one: the reads behind it come back one
after the other, three windows are stashed, and the late one folds all four. -/
theorem late_window_outgrows_bound :
    (∃ (fresh started core : WalkCore Unit) (opening : List Window × Bool)
        (trace : List (WalkCore.Completed Unit)),
      WalkCore.new .trap [4] 4 2 = some fresh ∧
        fresh.start = some (.ok opening, started) ∧
        Run (graph WalkCore.step) started trace core ∧
        (∀ recorded ∈ trace, recorded.output.all Except.isOk = true) ∧
        (∃ recorded ∈ trace, recorded.after.pending.size = 3) ∧
        ∃ recorded ∈ trace, ∃ slice ∈ recorded.output.filterMap Except.toOption,
          slice.1.length = 4) ∧
    ∃ (fresh started walk : SparseLocoIngestWalk Nat Nat (Nat × List Byte))
        (opening : IngestSlice Nat)
        (trace : List (SparseLocoIngestWalk.Delivered Nat Nat (Nat × List Byte))),
      SparseLocoIngestWalk.new sampleFloats .trap sampleCfg [4] 4 2 1 sampleCarry =
          some (.ok fresh) ∧
        fresh.start sampleFloats = some (.ok opening, started) ∧
        Run (graph (SparseLocoIngestWalk.step sampleFloats sampleXxh3)) started trace walk ∧
        SparseLocoIngestWalk.Orderly opening trace ∧
        (∃ recorded ∈ trace, recorded.after.parts.size = 3) ∧
        ∃ recorded ∈ trace, foldedCount recorded = 4 := by
  constructor
  · obtain ⟨fresh, opening, started, trace, core, built, begun, run, checked⟩ :=
      WalkCore.exists_run_of_check .trap [4] 4 2 [(1, ()), (2, ()), (3, ()), (0, ())]
        (fun trace _ => (∀ recorded ∈ trace, recorded.output.all Except.isOk = true) ∧
          (∃ recorded ∈ trace, recorded.after.pending.size = 3) ∧
          ∃ recorded ∈ trace, ∃ slice ∈ recorded.output.filterMap Except.toOption,
            slice.1.length = 4) (by decide +kernel)
    exact ⟨fresh, started, core, opening, trace, built, begun, run, checked⟩
  · obtain ⟨fresh, opening, started, trace, walk, built, begun, run, orderly, stashed, folded⟩ :=
      exists_run_of_check sampleFloats sampleXxh3 .trap sampleCfg [4] 4
        2 1 sampleCarry ([1, 2, 3, 0].flatMap fun ordinal => sampleWindow ordinal 7)
        (fun opening trace _ => SparseLocoIngestWalk.Orderly opening trace ∧
          trace.any (·.after.parts.size = 3) ∧ trace.any (foldedCount · = 4)) (by decide +kernel)
    exact ⟨fresh, started, walk, opening, trace, built, begun, run, orderly,
      by simpa using stashed, by simpa using folded⟩

end DaemonNode
