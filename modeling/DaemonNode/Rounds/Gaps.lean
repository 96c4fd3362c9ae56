import DaemonNode.Rounds.Ingest

/-!
# Gaps in the record history

The driver is meant to fold every round after the watermark, in order and
without leaving one out: when a record arrives and the queue starts past the
round after the watermark, it answers with a refusal. But the refused record
has been queued by then, and only this one handler looks for a gap. Opening a
round or finishing a fold enters the ingest loop with whatever is queued, and
the loop itself takes each next round it can mint. So a queue with a gap is
folded across it, as soon as the source can serve its rounds.
-/

namespace DaemonNode.Rounds.BarrierRound

open Machine

variable {E P S : Type} {setting : Setting E P S}

/-- The watermark and the queued rounds. -/
def known (driver : BarrierRound E) : List Nat :=
  driver.lastIngested.toList ++ driver.pending.keys

/-- A record that is not dropped leaves no round out between its own and the watermark or a
queued round. -/
def Follows (driver : BarrierRound E) : Call S → Prop
  | .roundRecord record _ _ =>
    (∃ last ∈ driver.lastIngested, record.round ≤ last) ∨
      ∀ lower ∈ driver.known, ∀ between < max lower record.round,
        min lower record.round < between → between ∈ driver.pending
  | _ => True

instance (driver : BarrierRound E) : DecidablePred (Follows (S := S) driver)
  | .roundRecord _ _ _ => inferInstanceAs (Decidable (_ ∨ _))
  | .roundOpen _ _ => .isTrue trivial
  | .finishIngest _ _ _ => .isTrue trivial

/-- The queue continues the watermark without a gap. -/
structure Unbroken (driver : BarrierRound E) : Prop where
  filled : ∀ lower ∈ driver.known, ∀ round ∈ driver.pending, ∀ between < round,
    lower < between → between ∈ driver.pending
  above : ∀ last ∈ driver.lastIngested, ∀ round ∈ driver.pending, last < round
  /-- A fold in flight is that of the watermark. -/
  flying : ∀ deferred ∈ driver.deferred, driver.lastIngested = some deferred.round

section Steps

variable {driver after : BarrierRound E} {call : Call S} {effects : List (Effect P)}

theorem mem_known {round : Nat} :
    round ∈ driver.known ↔ round ∈ driver.lastIngested ∨ round ∈ driver.pending := by
  simp [known]

theorem Unbroken.same (unbroken : Unbroken driver) (same : SameBarrier driver after) :
    Unbroken after := by
  obtain ⟨pending, last, deferred⟩ := same
  constructor
  · simpa only [known, pending, last] using unbroken.filled
  · simpa only [pending, last] using unbroken.above
  · simpa only [deferred, last] using unbroken.flying

/-- The lowest queued round is taken, which succeeds the watermark. -/
theorem Unbroken.ingest
    (unbroken : Unbroken driver)
    (ingest : Ingest setting driver effects after) :
    Unbroken after ∧ ∀ begun, .ingest begun ∈ effects →
      ∀ last ∈ begun.watermark, begun.round = last + 1 := by
  cases ingest with
  | @take round source rest committed outcome experiment onTime idle head minted =>
    obtain ⟨queued, least⟩ := first_queued head
    constructor
    · constructor
      · intro lower inside other member between below beyond
        rw [mem_known, accept_lastIngested, accept_pending] at inside
        rw [accept_pending] at member ⊢
        have filled := unbroken.filled round (mem_known.mpr (.inr queued))
        grind
      · intro last held other member
        rw [accept_lastIngested, Option.mem_some_iff] at held
        rw [accept_pending] at member
        grind
      · cases outcome <;> grind [accept]
    · intro begun member last held
      obtain rfl : begun = ⟨driver.lastIngested, driver.deferred, round, committed, outcome⟩ := by
        simpa using member
      have higher := unbroken.above last held round queued
      by_contra gap
      have between := unbroken.filled last (mem_known.mpr (.inl held)) round queued (last + 1)
        (by dsimp only at gap; omega) (by omega)
      have lowest := least (last + 1) between
      dsimp only at gap
      omega

theorem Unbroken.ingests
    (unbroken : Unbroken driver)
    (chain : Chain (Ingest setting) driver effects after) :
    Unbroken after ∧ ∀ begun, .ingest begun ∈ effects →
      ∀ last ∈ begun.watermark, begun.round = last + 1 := by
  induction chain with
  | nil => exact ⟨unbroken, fun _ => nofun⟩
  | cons first _ ih =>
    obtain ⟨later, here⟩ := unbroken.ingest first
    obtain ⟨final, there⟩ := ih later
    refine ⟨final, fun begun member => ?_⟩
    rcases List.mem_append.mp member with sooner | after
    · exact here begun sooner
    · exact there begun after

/-- A record that leaves no round out keeps the queue without a gap. -/
theorem Unbroken.entry
    (unbroken : Unbroken driver)
    (entry : Entry driver call effects after)
    (follows : Follows driver call) :
    Unbroken after := by
  cases entry with
  | opened | dropped | ignored => exact unbroken
  | @queued record entries source fresh =>
    have complete := follows.resolve_left fun ⟨last, held, below⟩ =>
      absurd (fresh last held) (Nat.not_lt.mpr below)
    constructor
    · intro lower inside round member between below beyond
      rw [mem_known] at inside
      simp only [queue, Std.TreeMap.mem_insert, Nat.compare_eq_eq] at inside member ⊢
      right
      rcases member with rfl | older
      · -- the new round is the upper one: the rounds below it are those the record follows
        have lowerKnown : lower ∈ driver.known := mem_known.mpr (by grind)
        exact complete lower lowerKnown between (by omega) (by omega)
      · rcases inside with last | rfl | queued
        · exact unbroken.filled lower (mem_known.mpr (.inl last)) round older between below beyond
        · exact complete round (mem_known.mpr (.inr older)) between (by omega) (by omega)
        · exact unbroken.filled lower (mem_known.mpr (.inr queued)) round older between below beyond
    · intro last held round member
      simp only [queue, Std.TreeMap.mem_insert, Nat.compare_eq_eq] at member
      rcases member with rfl | older
      · exact fresh last held
      · exact unbroken.above last held round older
    · exact unbroken.flying
  | @finished deferred digest source held =>
    have mark := unbroken.flying deferred held
    constructor
    · simpa only [known, mark] using unbroken.filled
    · simpa only [mark] using unbroken.above
    · intro begun flying
      cases flying

theorem Entry.not_ingest (entry : Entry driver call effects after) : .ingest begun ∉ effects := by
  cases entry <;> simp

/-- The step lemma. -/
theorem Unbroken.step
    (unbroken : Unbroken driver)
    (stepped : step setting driver call = some (after, effects))
    (follows : Follows driver call) :
    Unbroken after ∧ ∀ begun, .ingest begun ∈ effects →
      ∀ last ∈ begun.watermark, begun.round = last + 1 := by
  obtain ⟨does⟩ := step_does stepped
  obtain ⟨later, begins⟩ := (unbroken.entry does.entry follows).ingests does.chain
  refine ⟨later.same does.leaves, fun begun member => begins begun ?_⟩
  rw [does.effects_eq] at member
  rcases List.mem_append.mp member with first | member
  · exact absurd first does.entry.not_ingest
  · rcases List.mem_append.mp member with inside | last
    · exact inside
    · obtain ⟨action, same, _⟩ := does.quiet _ last
      cases same

end Steps

/-- In every run whose records each follow the watermark and the queue, a round that begins above
a watermark is its successor. -/
theorem no_gap_folded_of_follows
    (setting : Setting E P S)
    (experiment : E)
    (cfg : RoundCfg)
    (mark : Option Nat)
    {trace : List (Step (BarrierRound E) (Call S) (Effect P))}
    {driver : BarrierRound E}
    (run : Run (graph (step setting)) ((new experiment cfg).resumeFrom mark) trace driver)
    (follows : ∀ recorded ∈ trace, Follows recorded.before recorded.input) :
    ∀ recorded ∈ trace, ∀ begun, .ingest begun ∈ recorded.output →
      ∀ last ∈ begun.watermark, begun.round = last + 1 := by
  suffices unbroken : Unbroken driver ∧ ∀ recorded ∈ trace, ∀ begun,
      .ingest begun ∈ recorded.output → ∀ last ∈ begun.watermark, begun.round = last + 1 from
    unbroken.2
  induction run with
  | nil =>
    refine ⟨⟨?_, ?_, ?_⟩, fun _ => nofun⟩ <;> simp [new, resumeFrom]
  | snoc _ stepped ih =>
    rw [Lists.forall_mem_concat] at follows
    obtain ⟨unbroken, earlier⟩ := ih follows.1
    obtain ⟨after, here⟩ := unbroken.step stepped follows.2
    exact ⟨after, Lists.forall_mem_concat.mpr ⟨earlier, here⟩⟩

/-- A resumed driver that is delivered the next two rounds while one is in flight. -/
theorem two_rounds_folded_without_gap :
    ∃ trace driver,
      Run (graph (step sampleSetting)) sampleDriver trace driver ∧
      begunRounds (milestones trace) = [6, 7] ∧
      ∀ recorded ∈ trace, ∀ begun, .ingest begun ∈ recorded.output →
        ∀ last ∈ begun.watermark, begun.round = last + 1 := by
  obtain ⟨trace, driver, run, begun, follows⟩ := Run.of_checked_exec (step sampleSetting)
    sampleDriver [sampleRecord 6, sampleRecord 7, sampleOpen 8,
      .finishIngest 6 (Bytes.fill 16 0) ()]
    (fun trace _ => begunRounds (milestones trace) = [6, 7] ∧
      ∀ recorded ∈ trace, Follows recorded.before recorded.input) (by decide +kernel)
  exact ⟨trace, driver, run, begun,
    no_gap_folded_of_follows sampleSetting () _ (some 5) run follows⟩

/-- A driver resumed at round five refuses the record of round eight for its gap
and folds round eight when the next round opens. -/
theorem refused_round_folded_across_gap :
    ∃ trace driver,
      Run (graph (step sampleSetting)) sampleDriver trace driver ∧
      .sent (.gapRefused 5 8) ∈ emitted trace ∧
      ∃ recorded ∈ trace, ∃ begun, .ingest begun ∈ recorded.output ∧
        begun.watermark = some 5 ∧ begun.round = 8 := by
  obtain ⟨trace, driver, run, refused, recorded, inside, effect, member, across⟩ :=
    Run.of_checked_exec (step sampleSetting) sampleDriver [sampleRecord 8, sampleOpen 9]
      (fun trace _ => .sent (.gapRefused 5 8) ∈ emitted trace ∧
        ∃ recorded ∈ trace, ∃ effect ∈ recorded.output, (match effect with
          | .ingest begun => decide (begun.watermark = some 5 ∧ begun.round = 8)
          | .sent _ => false) = true) (by decide +kernel)
  refine ⟨trace, driver, run, refused, recorded, inside, ?_⟩
  cases effect with
  | ingest begun => exact ⟨begun, member, of_decide_eq_true across⟩
  | sent action => cases across

end DaemonNode.Rounds.BarrierRound
