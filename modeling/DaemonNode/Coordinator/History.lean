import DaemonNode.Coordinator.ActiveRound

/-!
# The history of records

Along a run in which no sum overflows, the records published for the first
time are those of the rounds 0, 1, 2, … in order, and every later publication
repeats them. The argument keeps a list of the frozen records, which the
program does not have: the ring stores the last of them, each at its index,
and at most the oldest gives way to the slot of the round now open.
-/

namespace DaemonNode.Coordinator

open Machine
open Word (Overflow)
open Ledger (Opens Freezes)
open RoundRing (indexOf)

variable {record : RoundRecord}

section Published

/-- What is read off published messages only is absent from silent outputs. -/
theorem Silent.filterMap_eq_nil (silent : Silent outputs) {read : Output → Option α}
    (notes : ∀ notice, read (.note notice) = none)
    (rejections : ∀ reason, read (.reject reason) = none) :
    outputs.filterMap read = [] := by
  rw [List.filterMap_eq_nil_iff]
  intro output member
  have quiet := silent output member
  cases output with
  | publish message => simp [Output.isSilent] at quiet
  | note notice => exact notes notice
  | reject reason => exact rejections reason

theorem Silent.publishedRecords_eq {outputs : List Output} (silent : Silent outputs) :
    publishedRecords outputs = [] :=
  silent.filterMap_eq_nil (fun _ => rfl) fun _ => rfl

theorem Silent.publishedOpens_eq {outputs : List Output} (silent : Silent outputs) :
    publishedOpens outputs = [] :=
  silent.filterMap_eq_nil (fun _ => rfl) fun _ => rfl

variable (ledger : Ledger)

@[simp] theorem publishedRecords_replay :
    publishedRecords ledger.replay = ledger.retainedRecords := by
  simp only [Ledger.replay, publishedRecords_append]
  simp only [publishedRecords, List.filterMap_map, Function.comp_def, Output.record?]
  simp

@[simp] theorem publishedOpens_replay :
    publishedOpens ledger.replay = ledger.standingOpen.toList := by
  simp only [Ledger.replay, publishedOpens_append]
  simp only [publishedOpens, List.filterMap_map, Function.comp_def, Output.roundOpen?]
  simp

theorem mem_retainedRecords :
    record ∈ ledger.retainedRecords ↔ ∃ index, (ledger.frames index).record = some record := by
  simp [Ledger.retainedRecords]

end Published

/-- Rounds at most a ring apart share an index only if they are equal or a
ring apart. -/
theorem eq_or_eq_add_of_indexOf_eq {old round : Nat}
    (same : indexOf old = indexOf round) (older : old ≤ round)
    (near : round ≤ old + numStoredRounds) :
    old = round ∨ old + numStoredRounds = round := by
  have remainders : old % numStoredRounds = round % numStoredRounds := congrArg Fin.val same
  unfold numStoredRounds at *
  omega

/-- The ring against the list of frozen records: each of the last rounds is
stored at its index, unless the slot of the current round took the place of
the oldest, and an index no round was frozen at holds no record. -/
structure Stores (ledger : Ledger) (frozen : List RoundRecord) : Prop where
  /-- The last rounds are stored. -/
  stored : ∀ old, old < ledger.round → ledger.round ≤ old + numStoredRounds →
    ((ledger.frames (indexOf old)).round = old ∧
      (ledger.frames (indexOf old)).record = frozen[old]?) ∨
    (old + numStoredRounds = ledger.round ∧
      ledger.currentFrame.round = ledger.round ∧
      ledger.currentFrame.record = none)
  unstored : ∀ index : Fin numStoredRounds, ledger.round ≤ index →
    (ledger.frames index).record = none

namespace Stores

section

variable (stores : Stores ledger frozen)

include stores

/-- Ledgers with the same round and frames store the same. -/
theorem of_eq (round_eq : after.round = ledger.round) (frames_eq : after.frames = ledger.frames) :
    Stores after frozen := by
  have current_eq : after.currentFrame = ledger.currentFrame := by
    rw [Ledger.currentFrame, Ledger.currentFrame, round_eq, frames_eq]
  constructor
  · rw [round_eq, frames_eq, current_eq]
    exact stores.stored
  · rw [round_eq, frames_eq]
    exact stores.unstored

/-- Opening the current round displaces at most the oldest record. -/
theorem opens {opening : RoundOpen} (opened : Opens mode prims ledger opening after) :
    Stores after frozen := by
  have round_eq : after.round = ledger.round := by rw [opened.after_eq]
  have current_eq := opened.currentFrame_eq
  rw [Ledger.currentFrame, round_eq] at current_eq
  constructor
  · intro old older near
    rw [round_eq] at older near
    by_cases same : indexOf old = indexOf ledger.round
    · right
      rcases eq_or_eq_add_of_indexOf_eq same older.le near with equal | apart
      · omega
      · rw [Ledger.currentFrame, round_eq, current_eq]
        exact ⟨apart, rfl, rfl⟩
    · left
      rw [opened.frames_of_ne same]
      rcases stores.stored old older near with held | ⟨apart, _⟩
      · exact held
      · exact absurd (Fin.ext (by
          simp only [indexOf]
          rw [← apart, Nat.add_mod_right])) same
  · intro index beyond
    rw [round_eq] at beyond
    by_cases same : index = indexOf ledger.round
    · rw [same, current_eq]
    · rw [opened.frames_of_ne same]
      exact stores.unstored index beyond

theorem freezes (length_eq : frozen.length = ledger.round)
    (next_eq : after.round = ledger.round + 1) (freezing : Freezes mode prims ledger record after) :
    Stores after (frozen ++ [record]) := by
  constructor
  · intro old older near
    left
    rw [next_eq] at older near
    by_cases newest : old = ledger.round
    · subst newest
      rw [freezing.frame_eq]
      refine ⟨freezing.held, ?_⟩
      rw [← length_eq, List.getElem?_concat_length]
    · have apart : indexOf old ≠ indexOf ledger.round := by
        intro same
        have := eq_or_eq_add_of_indexOf_eq same (by omega) (by omega)
        omega
      rw [freezing.frames_of_ne apart, List.getElem?_append_left (by omega)]
      rcases stores.stored old (by omega) (by omega) with held | ⟨ringApart, _⟩
      · exact held
      · omega
  · intro index beyond
    rw [next_eq] at beyond
    have other : index ≠ indexOf ledger.round := by
      intro same
      have bound := index.isLt
      have value : (index : Nat) = ledger.round % numStoredRounds := congrArg Fin.val same
      have small := Nat.mod_le ledger.round numStoredRounds
      omega
    rw [freezing.frames_of_ne other]
    exact stores.unstored index (by omega)

/-- Every record in the ring is a frozen one. -/
theorem record_eq (held : (ledger.frames index).record = some record) :
    ∃ old, old < ledger.round ∧ ledger.round ≤ old + numStoredRounds ∧
      indexOf old = index ∧ frozen[old]? = some record := by
  by_cases beyond : ledger.round ≤ index
  · rw [stores.unstored index beyond] at held
    cases held
  · -- the latest round below the current one at this index
    have bound := index.isLt
    let old := ledger.round - 1 - (ledger.round - 1 - index) % numStoredRounds
    have small := Nat.mod_lt (ledger.round - 1 - index) (show 0 < numStoredRounds by decide)
    have less := Nat.mod_le (ledger.round - 1 - index) numStoredRounds
    have older : old < ledger.round := by omega
    have near : ledger.round ≤ old + numStoredRounds := by omega
    have index_eq : indexOf old = index := by
      apply Fin.ext
      have divided := Nat.div_add_mod (ledger.round - 1 - index) numStoredRounds
      have value : old = index + numStoredRounds *
          ((ledger.round - 1 - index) / numStoredRounds) := by omega
      simp only [indexOf]
      rw [value, Nat.add_mul_mod_self_left, Nat.mod_eq_of_lt bound]
    refine ⟨old, older, near, index_eq, ?_⟩
    rcases stores.stored old older near with ⟨_, record_eq⟩ | ⟨apart, _, empty⟩
    · rw [index_eq, held] at record_eq
      exact record_eq.symm
    · have same : indexOf ledger.round = index := by
        rw [← index_eq]
        apply Fin.ext
        simp only [indexOf]
        rw [← apart, Nat.add_mod_right]
      rw [Ledger.currentFrame, same, held] at empty
      cases empty

end

end Stores

/-- The records published so far against the list of frozen records. -/
structure Records (outputs : List Output) (ledger : Ledger)
    (frozen : List RoundRecord) : Prop where
  length_eq : frozen.length = ledger.round
  round_eq : ∀ (old : Nat) (record : RoundRecord), frozen[old]? = some record → record.round = old
  /-- The first publications are in the order of the rounds. -/
  first_eq : ((publishedRecords outputs).map RoundRecord.round).eraseDups = List.range ledger.round
  faithful : ∀ record ∈ publishedRecords outputs, frozen[record.round]? = some record
  stores : Stores ledger frozen

namespace Records

variable {ledger after : Ledger}
variable {earlier outputs : List Output} {frozen : List RoundRecord}

section

variable (records : Records earlier ledger frozen)

include records

/-- Publishing known records again, or none, keeps the history as long as
round and frames stay. -/
theorem of_known (known : ∀ record ∈ publishedRecords outputs, frozen[record.round]? = some record)
    (stores : Stores after frozen) (round_eq : after.round = ledger.round) :
    Records (earlier ++ outputs) after frozen := by
  refine ⟨by rw [round_eq]; exact records.length_eq, records.round_eq, ?_, ?_, stores⟩
  · rw [publishedRecords_append, List.map_append, round_eq, ← records.first_eq]
    apply Lists.eraseDups_append_of_subset
    intro round member
    obtain ⟨record, published, rfl⟩ := List.mem_map.mp member
    have inside : record.round < frozen.length :=
      (List.getElem?_eq_some_iff.mp (known record published)).1
    rw [← List.mem_eraseDups, records.first_eq, List.mem_range, ← records.length_eq]
    exact inside
  · rw [publishedRecords_append]
    exact List.forall_mem_append.mpr ⟨records.faithful, known⟩

theorem retained_known (retained : record ∈ ledger.retainedRecords) :
    frozen[record.round]? = some record := by
  obtain ⟨index, held⟩ := (mem_retainedRecords ledger).mp retained
  obtain ⟨old, _, _, _, frozen_eq⟩ := records.stores.record_eq held
  rw [records.round_eq old record frozen_eq]
  exact frozen_eq

/-- Every move keeps the history. -/
theorem move (moved : Move .trap prims ledger outputs after) :
    Records (earlier ++ outputs) after frozen := by
  have replayed : ∀ peer, ∀ record ∈
      publishedRecords (.note (.admitted peer) :: ledger.replay),
        frozen[record.round]? = some record := by
    intro peer record member
    have retained : record ∈ publishedRecords ledger.replay := member
    rw [publishedRecords_replay] at retained
    exact records.retained_known retained
  cases moved with
  | silent silent | decay _ _ silent =>
    exact records.of_known (by simp [silent.publishedRecords_eq]) (records.stores.of_eq rfl rfl) rfl
  | enterWarmup | floorBreach | toWitness | conclude | drain | pause =>
    exact records.of_known (List.forall_mem_nil _) (records.stores.of_eq rfl rfl) rfl
  | openFirst _ _ opened =>
    exact records.of_known (List.forall_mem_nil _) (records.stores.opens opened)
      (by rw [opened.after_eq])
  | seat | stage | rejoin => exact records.of_known (replayed _) (records.stores.of_eq rfl rfl) rfl

theorem freezes (silent : Silent drops) (freezing : Freezes .trap prims ledger record after) :
    Records (earlier ++ (drops ++ [.publish (.roundRecord record)])) after
      (frozen ++ [record]) := by
  obtain ⟨_, next_eq⟩ := Overflow.trap_add_eq_some_iff.mp freezing.nextRound_eq
  have published : publishedRecords
      (earlier ++ (drops ++ [.publish (.roundRecord record)])) =
        publishedRecords earlier ++ [record] := by
    rw [publishedRecords_append, publishedRecords_append, silent.publishedRecords_eq]
    rfl
  refine ⟨?_, ?_, ?_, ?_, records.stores.freezes records.length_eq next_eq freezing⟩
  · rw [List.length_append, records.length_eq, next_eq]
    rfl
  · intro old found found_eq
    rcases Nat.lt_or_ge old frozen.length with older | newest
    · rw [List.getElem?_append_left older] at found_eq
      exact records.round_eq old found found_eq
    · have inside := (List.getElem?_eq_some_iff.mp found_eq).1
      rw [List.length_append, List.length_singleton] at inside
      have last : old = frozen.length := by omega
      rw [last, List.getElem?_concat_length, Option.some.injEq] at found_eq
      rw [← found_eq, freezing.round_eq, last, records.length_eq]
  · have fresh : record.round ∉
        (publishedRecords earlier).map RoundRecord.round := by
      rw [← List.mem_eraseDups, records.first_eq, freezing.round_eq]
      exact List.not_mem_range_self
    rw [published, List.map_append, List.map_singleton,
      Lists.eraseDups_concat_of_not_mem fresh, records.first_eq, next_eq,
      freezing.round_eq, List.range_succ]
  · rw [published]
    refine Lists.forall_mem_concat.mpr ⟨fun found old => ?_, ?_⟩
    · have known := records.faithful found old
      rw [List.getElem?_append_left (List.getElem?_eq_some_iff.mp known).1]
      exact known
    · rw [freezing.round_eq, ← records.length_eq, List.getElem?_concat_length]

/-- Closing a round adds its record to the history. -/
theorem closing (closed : Closing .trap prims ledger outputs after) :
    ∃ record, Records (earlier ++ outputs) after (frozen ++ [record]) := by
  cases closed with
  | @cool record frozenLedger drops freezing silent =>
    refine ⟨record, ?_⟩
    have froze := records.freezes silent freezing
    have stores : Stores { frozenLedger with phase := .cooldown }
        (frozen ++ [record]) := froze.stores.of_eq rfl rfl
    have cooled := froze.of_known (show ∀ found ∈ publishedRecords
      [.note (.phaseChanged .roundWitness .cooldown)], _ from List.forall_mem_nil _) stores rfl
    simpa using cooled
  | @advance record frozenLedger drops opening _ freezing silent _ _ opened =>
    refine ⟨record, ?_⟩
    have froze := records.freezes silent freezing
    have advanced := froze.of_known (show ∀ found ∈ publishedRecords
      [.note (.phaseChanged .roundWitness .roundTrain), .publish (.roundOpen opening)], _
        from List.forall_mem_nil _) (froze.stores.opens opened) (by rw [opened.after_eq])
    simpa using advanced

end

/-- Every step continues the history. -/
theorem step (records : ∃ frozen, Records earlier ledger frozen)
    (stepped : LedgerStep .trap prims ledger input outputs after) :
    ∃ frozen, Records (earlier ++ outputs) after frozen := by
  cases stepped with
  | resume =>
    obtain ⟨frozen, records⟩ := records
    exact ⟨frozen, records.of_known (List.forall_mem_nil _) (records.stores.of_eq rfl rfl) rfl⟩
  | progress progress =>
    refine progress.accumulate
      (fun earlier ledger => ∃ frozen, Records earlier ledger frozen) ?_ ?_ records
    · rintro _ _ _ _ ⟨frozen, records⟩ moved
      exact ⟨frozen, records.move moved⟩
    · rintro _ _ _ _ ⟨frozen, records⟩ closed
      obtain ⟨record, longer⟩ := records.closing closed
      exact ⟨_, longer⟩

theorem initial (config : RunConfig) (seed : Seed) :
    Records [] (Ledger.new config seed) [] where
  length_eq := rfl
  round_eq := by simp
  first_eq := rfl
  faithful := by simp [publishedRecords]
  stores :=
    { stored := by simp [Ledger.new], unstored := fun _ _ => rfl }

end Records

/-- A step finalises the current round when it counts one more round done. -/
def Finalises (before after : CoordinatorState) : Prop :=
  after.roundsDone ≠ before.roundsDone

instance (before after : CoordinatorState) : Decidable (Finalises before after) :=
  inferInstanceAs (Decidable (_ ≠ _))

/-- A move finalises nothing. -/
theorem Move.rounds_eq (moved : Move mode prims ledger outputs after) :
    after.round = ledger.round ∧ after.roundsDone = ledger.roundsDone := by
  cases moved with
  | openFirst _ _ opened =>
    rw [opened.after_eq]
    exact ⟨rfl, rfl⟩
  | _ => exact ⟨rfl, rfl⟩

/-- Closing a round counts it and makes the next one current. -/
theorem Closing.rounds_eq (closed : Closing mode prims ledger outputs after) :
    mode.add 64 ledger.round 1 = some after.round ∧
      mode.add 64 ledger.roundsDone 1 = some after.roundsDone := by
  cases closed with
  | cool freezing => exact ⟨freezing.nextRound_eq, freezing.roundsDone_eq⟩
  | advance freezing _ _ _ opened =>
    rw [opened.after_eq]
    exact ⟨freezing.nextRound_eq, freezing.roundsDone_eq⟩

/-- A step leaves round and count alone or advances both. -/
theorem LedgerStep.rounds_cases (stepped : LedgerStep mode prims ledger input outputs after) :
    (after.round = ledger.round ∧ after.roundsDone = ledger.roundsDone) ∨
      (mode.add 64 ledger.round 1 = some after.round ∧
        mode.add 64 ledger.roundsDone 1 = some after.roundsDone) := by
  have chained : ∀ {moved middle},
      Chain (Move mode prims) ledger moved middle →
        middle.round = ledger.round ∧ middle.roundsDone = ledger.roundsDone := by
    intro moved middle chain
    refine chain.invariant
      (fun later => later.round = ledger.round ∧ later.roundsDone = ledger.roundsDone) ?_ ⟨rfl, rfl⟩
    rintro before _ later ⟨round_eq, done_eq⟩ step
    obtain ⟨round_eq', done_eq'⟩ := step.rounds_eq
    exact ⟨round_eq'.trans round_eq, done_eq'.trans done_eq⟩
  cases stepped with
  | resume => exact .inl ⟨rfl, rfl⟩
  | progress progress =>
    cases progress with
    | moves chain => exact .inl (chained chain)
    | close chain closed =>
      obtain ⟨round_eq, done_eq⟩ := chained chain
      rw [← round_eq, ← done_eq]
      exact .inr closed.rounds_eq

/-- Every run without overflow has a history of records. -/
theorem TickRun.records (run : TickRun .trap prims config seed nowS trace state) :
    ∃ frozen, Records (emitted trace) state.ledger frozen := by
  have history := (run_refines run).history
    (fun trace ledger => ∃ frozen, Records (emitted trace) ledger frozen)
    ⟨[], Records.initial config seed⟩ ?_
  · simpa using history
  · intro trace ledger input after outputs _ records stepped
    rw [emitted_append, emitted_singleton]
    exact Records.step records stepped

/-- The rounds finalised along a run without overflow are the rounds before
the current one, each once and in order. -/
theorem TickRun.finalised_eq (run : TickRun .trap prims config seed nowS trace state) :
    (trace.filter fun recorded =>
        decide (Finalises recorded.before recorded.after)).map
      (fun recorded => recorded.before.round) = List.range state.round := by
  induction run with
  | nil => rfl
  | @snoc trace state input after outputs _ stepped finalised =>
    rw [List.filter_append, List.map_append, finalised]
    rcases (tick_refines stepped).rounds_cases with
      ⟨round_eq, done_eq⟩ | ⟨round_eq, done_eq⟩
    · have idle : ¬Finalises state after := not_not.mpr done_eq
      have round_eq : after.round = state.round := round_eq
      simp [idle, round_eq]
    · obtain ⟨_, done_eq⟩ := Overflow.trap_add_eq_some_iff.mp done_eq
      obtain ⟨_, round_eq⟩ := Overflow.trap_add_eq_some_iff.mp round_eq
      have round_eq : after.round = state.round + 1 := round_eq
      have done_eq : after.roundsDone = state.roundsDone + 1 := done_eq
      have finalises : Finalises state after := by
        unfold Finalises
        omega
      simp [finalises, round_eq, List.range_succ]

/-- Along every run without overflow, the rounds whose record is published
for the first time are 0, 1, 2, … in order; two publications for one round
are of the same record; and the steps that finalise a round finalise 0, 1,
2, … in order, each once. -/
theorem record_agreement (run : TickRun .trap prims config seed nowS trace state) :
    ((publishedRecords (emitted trace)).map RoundRecord.round).eraseDups = List.range state.round ∧
      (∀ first ∈ publishedRecords (emitted trace),
        ∀ again ∈ publishedRecords (emitted trace), again.round = first.round → again = first) ∧
      (trace.filter fun recorded =>
          decide (Finalises recorded.before recorded.after)).map
        (fun recorded => recorded.before.round) = List.range state.round := by
  obtain ⟨frozen, records⟩ := run.records
  refine ⟨records.first_eq, ?_, run.finalised_eq⟩
  intro first firstPublished again againPublished same
  have firstKnown := records.faithful first firstPublished
  have againKnown := records.faithful again againPublished
  rw [same, firstKnown] at againKnown
  exact (Option.some.inj againKnown).symm

/-- One round finalised by its deadlines, a pause in the next round, which is
opened again after the resume, and a member that joins again. -/
def reopenSample : List Input :=
  [sampleJoin (samplePeer 1), .clock 1, .clock 20, .clock 40, .clock 60,
    sampleControl .pause, sampleControl .resume, .clock 61, .clock 80,
    sampleJoin (samplePeer 1)]

theorem record_agreement_sample :
    ∃ trace state,
      TickRun .trap samplePrimitives sampleConfig (Bytes.fill 32 7) 0 trace state ∧
        (publishedRecords (emitted trace)).length = 2 ∧
        ((publishedRecords (emitted trace)).map
          RoundRecord.round).eraseDups = List.range state.round ∧
        ∀ first ∈ publishedRecords (emitted trace),
          ∀ again ∈ publishedRecords (emitted trace),
            again.round = first.round → again = first := by
  obtain ⟨trace, state, run, published⟩ := sampleRun_of_checked sampleConfig reopenSample
    (fun trace _ => (publishedRecords (emitted trace)).length = 2) (by decide +kernel)
  obtain ⟨first, agreement, _⟩ := record_agreement run
  exact ⟨trace, state, run, published, first, agreement⟩

end DaemonNode.Coordinator
