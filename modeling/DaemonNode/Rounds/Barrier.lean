import DaemonNode.Consensus.Committed
import DaemonNode.Lib.Machine
import DaemonNode.Rounds.Slices

/-!
# The barrier driver

The round choreography of a worker. Records of committed rounds are queued by
round and ingested in ascending order as far as their payloads can be fetched.
An experiment either folds a round at once or defers it, and while a fold is in
flight nothing else is ingested. A round that cannot be ingested makes the
worker straggle, which skips training until it has caught up.

The experiment and the payload source are parameters. A call returns what the
driver sends; besides, the effects of a call record each ingest it begins,
together with the watermark and the fold in flight at that moment.
-/

namespace DaemonNode.Rounds

open Word (Overflow)

/-- The context of one training step. -/
structure StepCtx where
  (round innerStep : Nat)
  micro : MicroWindow
  /-- Its index within the inner step. -/
  mbIndex : Nat
  mbCount : Nat
  deriving DecidableEq, Repr

/-- How an experiment answers an ingest. -/
inductive IngestOutcome
  /-- The round is folded; this is its digest. -/
  | ready (digest : StateDigest)
  /-- The fold runs on and will be finished by a later call. -/
  | deferred
  deriving DecidableEq

/-- The points at which the driver calls an experiment. -/
structure RoundExperiment (E P : Type) where
  trainStep : StepCtx → E → E
  innerUpdate : Nat → E → E
  makeUpdate : Nat → E → List Byte × E
  beginIngest : Nat → Committed P → E → IngestOutcome × E

/-- What a driver runs against. -/
structure Setting (E P S : Type) where
  mode : Overflow
  blake3 : List Byte → Hash
  access : PayloadAccess P S
  experiment : RoundExperiment E P

/-- Per-epoch configuration. -/
structure RoundCfg where
  peer : PeerId
  roster : List PeerId
  stepsPerRound : Nat
  microBatch : Nat
  stallRoundsMax : Nat
  deriving DecidableEq

/-- What the driver asks its host to do. -/
inductive Outbound
  | commit (commitment : Commitment) (payload : List Byte)
  /-- Report a straggle: fetching, or skipping a round while stalled. -/
  | straggle (round : Nat) (fetching : Bool)
  /-- A round was ingested on its own record. -/
  | roundComplete (round : Nat) (digest : StateDigest)
  /-- A queued round was ingested late. -/
  | caughtUp (round : Nat) (digest : StateDigest)
  /-- The stall budget is exhausted. -/
  | left (round : Nat)
  /-- The queue starts past the round after the watermark. -/
  | gapRefused (restored head : Nat)
  deriving DecidableEq

/-- A fold in flight. -/
structure DeferredIngest where
  round : Nat
  onTime : Bool
  deriving DecidableEq, Repr

/-- The state of a driver. -/
structure BarrierRound (E : Type) where
  experiment : E
  cfg : RoundCfg
  /-- Records not yet ingested, by round. -/
  pending : Std.TreeMap Nat (List RecordEntry)
  /-- Whether the queue could not be ingested. -/
  straggling : Bool
  stalledRounds : Nat
  /-- The watermark: rounds up to it are never ingested again. -/
  lastIngested : Option Nat
  deferred : Option DeferredIngest

/-- An ingest, as it begins. -/
structure Begun (P : Type) where
  watermark : Option Nat
  inFlight : Option DeferredIngest
  round : Nat
  committed : Committed P
  outcome : IngestOutcome
  deriving DecidableEq

/-- What a call does besides changing the driver. -/
inductive Effect (P : Type)
  | ingest (begun : Begun P)
  | sent (action : Outbound)
  deriving DecidableEq

/-- A call on the driver, with the payload source it is given. -/
inductive Call (S : Type)
  | roundOpen (opened : RoundOpen) (source : S)
  | roundRecord (record : RoundRecord) (entries : List RecordEntry) (source : S)
  | finishIngest (round : Nat) (digest : StateDigest) (source : S)

namespace BarrierRound

variable {E P S : Type}

/-- A fresh driver. -/
def new (experiment : E) (cfg : RoundCfg) : BarrierRound E :=
  { experiment := experiment
    cfg := cfg
    pending := ∅
    straggling := false
    stalledRounds := 0
    lastIngested := none
    deferred := none }

section

variable (setting : Setting E P S) (driver : BarrierRound E)

/-- Seed the watermark from a restored checkpoint. -/
def resumeFrom (lastIngested : Option Nat) : BarrierRound E :=
  { driver with lastIngested := lastIngested }

/-- The announcement of a finished ingest. -/
def voice (onTime : Bool) (round : Nat) (digest : StateDigest) : Outbound :=
  if onTime then .roundComplete round digest else .caughtUp round digest

/-- Take the head of the queue, which the experiment has answered: its round
leaves the queue and becomes the watermark, and a deferred fold is in flight. -/
def accept (experiment : E) (round : Nat) (onTime : Bool) :
    IngestOutcome → BarrierRound E × List Outbound
  | .ready digest =>
    ({ driver with
        experiment := experiment
        lastIngested := some round
        pending := driver.pending.erase round },
      [voice onTime round digest])
  | .deferred =>
    ({ driver with
        experiment := experiment
        lastIngested := some round
        pending := driver.pending.erase round
        deferred := some ⟨round, onTime⟩ },
      [])

/-- The ingest loop, which takes at most as many rounds as it is allowed. -/
def advanceLoop (setting : Setting E P S) (trigger : Option Nat) :
    Nat → BarrierRound E → S → BarrierRound E × List (Effect P)
  | 0, driver, _ => (driver, [])
  | rounds + 1, driver, source =>
    if driver.deferred.isSome then (driver, [])
    else
      match driver.pending.keys.head? with
      | none => (driver, [])
      | some round =>
        match Committed.mint setting.access ⟨defaultRecordsChannel⟩ round
            (driver.pending.getD round []) source with
        | (.error _, _) => (driver, [])
        | (.ok committed, source) =>
          let onTime := !driver.straggling && trigger == some round
          let answer :=
            setting.experiment.beginIngest round committed driver.experiment
          let begun : Begun P :=
            ⟨driver.lastIngested, driver.deferred, round, committed, answer.1⟩
          let accepted := driver.accept answer.2 round onTime answer.1
          let later := advanceLoop setting trigger rounds accepted.1 source
          (later.1, .ingest begun :: accepted.2.map .sent ++ later.2)

/-- Straggling ends when nothing is queued and nothing is in flight. -/
def settle : BarrierRound E :=
  if driver.pending.isEmpty && driver.deferred.isNone then
    { driver with straggling := false, stalledRounds := 0 }
  else driver

/-- Ingest queued rounds in ascending order, as far as they can be minted. -/
def advance (trigger : Option Nat) (driver : BarrierRound E) (source : S) :
    BarrierRound E × List (Effect P) :=
  let ingested := advanceLoop setting trigger driver.pending.size driver source
  (ingested.1.settle, ingested.2)

/-- Train the micro-windows of one inner step, then apply the inner optimizer. -/
def trainInner (round : Nat) (experiment : E) (step : InnerStep) : E :=
  let trained := step.micro.zipIdx.foldl (fun experiment (micro, index) =>
    setting.experiment.trainStep
      { round := round
        innerStep := step.index
        micro := micro
        mbIndex := index % 2 ^ 32
        mbCount := step.micro.length % 2 ^ 32 } experiment) experiment
  setting.experiment.innerUpdate step.index trained

/-- Train the assigned interval and seal the round's update. -/
def trainAndCommit (opened : RoundOpen) : Option (BarrierRound E × Outbound) := do
  let steps ← trainingSteps setting.mode setting.blake3 opened.batch opened.seed
    driver.cfg.roster driver.cfg.peer driver.cfg.stepsPerRound driver.cfg.microBatch
  let trained := steps.foldl (trainInner setting opened.round) driver.experiment
  let update := setting.experiment.makeUpdate opened.round trained
  some ({ driver with experiment := update.2 },
    .commit
      { round := opened.round
        payload := setting.blake3 update.1
        size := update.1.length
        locators := [] }
      update.1)

/-- Handle the opening of a round: catch up, then skip the round if still
stalled, or else train and commit. -/
def onRoundOpen (opened : RoundOpen) (source : S) : Option (BarrierRound E × List (Effect P)) :=
  let advanced := advance setting none driver source
  let driver := advanced.1
  if driver.straggling then do
    let stalledRounds ← setting.mode.add 32 driver.stalledRounds 1
    let round := driver.pending.keys.head?.getD opened.round
    let leaving : List (Effect P) :=
      if driver.cfg.stallRoundsMax < stalledRounds then [.sent (.left round)] else []
    some ({ driver with stalledRounds := stalledRounds },
      advanced.2 ++ .sent (.straggle opened.round false) :: leaving)
  else do
    let committed ← trainAndCommit setting driver opened
    some (committed.1, advanced.2 ++ [.sent committed.2])

/-- The refusal of a queue that starts past the round after the watermark. The
sum is exact: a watermark at the end of the word drops every record first. -/
def gapRefusal : Option Outbound :=
  match driver.lastIngested, driver.pending.keys.head? with
  | some last, some head =>
    if last + 1 < head then some (.gapRefused last head) else none
  | _, _ => none

def queue (round : Nat) (entries : List RecordEntry) : BarrierRound E :=
  { driver with pending := driver.pending.insert round entries }

/-- Handle a record: drop it at or below the watermark, queue it, refuse a gap,
and ingest as far as the queue allows. -/
def onRoundRecord (record : RoundRecord) (entries : List RecordEntry) (source : S) :
    BarrierRound E × List (Effect P) :=
  if driver.lastIngested.any fun last => record.round ≤ last then (driver, [])
  else
    let queued := driver.queue record.round entries
    match queued.gapRefusal with
    | some refusal => (queued, [.sent refusal])
    | none =>
      let advanced := advance setting (some record.round) queued source
      if advanced.1.pending.contains record.round then
        ({ advanced.1 with straggling := true },
          advanced.2 ++ [.sent (.straggle record.round true)])
      else advanced

/-- Finish the fold in flight and resume the queue. Any other round is
ignored. -/
def finishIngest (round : Nat) (digest : StateDigest) (source : S) :
    BarrierRound E × List (Effect P) :=
  match driver.deferred with
  | none => (driver, [])
  | some deferred =>
    if deferred.round ≠ round then (driver, [])
    else
      let finished :=
        { driver with deferred := none, lastIngested := some round }
      let advanced := advance setting none finished source
      (advanced.1, .sent (voice deferred.onTime round digest) :: advanced.2)

def step : Machine.StepFunction (BarrierRound E) (Call S) (Effect P)
  | driver, .roundOpen opened source => onRoundOpen setting driver opened source
  | driver, .roundRecord record entries source =>
    some (onRoundRecord setting driver record entries source)
  | driver, .finishIngest round digest source =>
    some (finishIngest setting driver round digest source)

end

variable {pending : Std.TreeMap Nat (List RecordEntry)}

theorem first_queued {round : Nat} (head : pending.keys.head? = some round) :
    round ∈ pending ∧ ∀ other ∈ pending, round ≤ other := by
  rw [← Std.TreeMap.minKey?_eq_head?_keys] at head
  obtain ⟨member, least⟩ := Std.TreeMap.minKey?_eq_some_iff_mem_and_forall.mp head
  exact ⟨member, fun other inside => Nat.isLE_compare.mp (least other inside)⟩

@[simp] theorem accept_pending (driver : BarrierRound E) (experiment : E) (round : Nat)
    (onTime : Bool) (outcome : IngestOutcome) :
    (driver.accept experiment round onTime outcome).1.pending = driver.pending.erase round := by
  cases outcome <;> rfl

@[simp] theorem accept_lastIngested (driver : BarrierRound E) (experiment : E)
    (round : Nat) (onTime : Bool) (outcome : IngestOutcome) :
    (driver.accept experiment round onTime outcome).1.lastIngested = some round := by
  cases outcome <;> rfl

/-- More rounds than are queued make no difference, so `advance` stops only where the
source's loop does. -/
theorem advanceLoop_succ (setting : Setting E P S) (trigger : Option Nat) {rounds : Nat}
    {driver : BarrierRound E} (source : S) (enough : driver.pending.size ≤ rounds) :
    advanceLoop setting trigger (rounds + 1) driver source =
      advanceLoop setting trigger rounds driver source := by
  induction rounds generalizing driver source with
  | zero =>
    have empty : driver.pending.keys = [] := List.length_eq_zero_iff.mp (by simpa using enough)
    simp [advanceLoop, empty]
  | succ rounds ih =>
    rw [advanceLoop.eq_2, advanceLoop.eq_2]
    cases head : driver.pending.keys.head? with
    | none => rfl
    | some round =>
      have queued := (first_queued head).1
      have fewer : (driver.pending.erase round).size ≤ rounds := by grind
      simp only [ih _ (accept_pending driver .. ▸ fewer)]

end BarrierRound
end DaemonNode.Rounds
