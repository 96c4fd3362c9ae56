import DaemonNode.Consensus.Digest
import DaemonNode.Consensus.FoldWalk
import DaemonNode.Profiles.Payload

/-!
# Streamed fold walks

A streamed walk reads its windows out of order and folds them in order. The
core both profiles share stashes the inputs of the windows that have arrived
ahead of the fold. The ingest walk stashes the single parts of a window, and
asks the schedule once a window has all of them; a norm pass over the values
comes first when contributions are clipped, and the fold pass emits the master
windows and feeds the digest carry.

A call that panics has no result. A call that is refused still has a state
after it, because the walk may have changed before the refusal.
-/

namespace DaemonNode

open DetState (stateElemBytes)
open Word (Overflow)

/-- The bytes of a state window. -/
def f32sToLeBytes (floats : Floats F32 F64) (values : List F32) : List Byte :=
  values.flatMap floats.toLe

/-- The state window of some bytes, which have to be whole elements. -/
def leBytesToF32s (floats : Floats F32 F64) (bytes : List Byte) :
    Except String (List F32) :=
  if bytes.length % 4 ≠ 0 then
    .error ("state window of " ++ toString bytes.length ++ " bytes is not an f32-le image")
  else .ok ((Parts.chunks 4 bytes.length bytes).map floats.ofLe)

/-- The number of elements of a window. -/
def windowElems (window : Window) : Nat := window.len / stateElemBytes

/-- A window input has to have the window's elements. -/
def checkWindowInput (schedule : List Window) (ordinal : Nat) (name : String)
    (len : Nat) : Except String Unit :=
  match schedule[ordinal]? with
  | none =>
    .error ("window " ++ toString ordinal ++ " out of range (" ++
      toString schedule.length ++ " windows)")
  | some window =>
    if len ≠ windowElems window then
      .error ("window " ++ toString ordinal ++ ": " ++ name ++ " has " ++
        toString len ++ " elements, window needs " ++ toString (windowElems window))
    else .ok ()

/-- The schedule and the inputs that have arrived ahead of the fold. -/
structure WalkCore (T : Type) where
  walk : FoldWalk
  schedule : List Window
  pending : Std.ExtTreeMap Nat T
  started : Bool

namespace WalkCore

/-- A core over the windows of a parameter list. -/
def new (mode : Overflow) (numels : List Nat) (windowSize inFlight : Nat) :
    Option (WalkCore T) := do
  let schedule ← windows mode numels windowSize
  some
    { walk := .new schedule.length inFlight, schedule, pending := ∅, started := false }

def issueWindows (core : WalkCore T) (ordinals : List Nat) : Option (List Window) :=
  ordinals.mapM fun ordinal => core.schedule[ordinal]?

/-- The opening slice. -/
def start (core : WalkCore T) :
    Option (Except String (List Window × Bool) × WalkCore T) :=
  if core.started then some (.error "walk already started", core)
  else do
    let (actions, walk) := core.walk.start
    let core := { core with started := true, walk }
    let issue ← core.issueWindows actions.issue
    some (.ok (issue, actions.seals), core)

/-- The loop that takes the inputs of the folded windows off the stash. -/
def takeFolds (schedule : List Window) :
    List Nat → Std.ExtTreeMap Nat T →
      Option (Except String (List (Window × T)) × Std.ExtTreeMap Nat T)
  | [], pending => some (.ok [], pending)
  | ordinal :: ordinals, pending =>
    match pending[ordinal]? with
    | none =>
      some (.error ("window " ++ toString ordinal ++ " foldable without a stashed input"), pending)
    | some input => do
      let window ← schedule[ordinal]?
      let (folds, pending) ← takeFolds schedule ordinals (pending.erase ordinal)
      some (folds.map ((window, input) :: ·), pending)

/-- One window read completed. -/
def ready (core : WalkCore T) (ordinal : Nat) (input : T) :
    Option (Except String (List (Window × T) × List Window × Bool) × WalkCore T) :=
  if !core.started then some (.error "walk not started", core)
  else
    match core.walk.onCompletion ordinal with
    | (.error unexpected, walk) => some (.error unexpected.message, { core with walk })
    | (.ok actions, walk) => do
      let (folds, pending) ← takeFolds core.schedule actions.fold
        (core.pending.insert ordinal input)
      let core := { core with walk, pending }
      match folds with
      | .error refusal => some (.error refusal, core)
      | .ok folds =>
        let issue ← core.issueWindows actions.issue
        some (.ok (folds, issue, actions.seals), core)

/-- Whether everything has folded. -/
def isSealed (core : WalkCore T) : Bool := core.walk.sealed

/-- The core as a machine that is given completed reads. -/
def step : Machine.StepFunction (WalkCore T) (Nat × T)
    (Except String (List (Window × T) × List Window × Bool)) :=
  fun core read => do
    let (answer, after) ← core.ready read.1 read.2
    some (after, [answer])

end WalkCore

/-- Which input of a window a read carries. -/
inductive IngestPart
  /-- The state window of the round before. -/
  | roundBase
  /-- The packed values of a peer, by its place in the record. -/
  | values (peer : Nat)
  | indices (peer : Nat)
  deriving DecidableEq, Repr

/-- One read for the driver to start. -/
structure IngestFetch where
  part : IngestPart
  window : Window
  span : Option (Nat × Nat)
  deriving DecidableEq, Repr

/-- What one call to the ingest walk leads to. -/
structure IngestSlice (F32 : Type) where
  /-- Folded windows with their master state, in fold order. -/
  emitted : List (Window × List F32)
  issue : List IngestFetch
  sealed : Bool
  deriving DecidableEq

/-- The parts of a window that have arrived. -/
structure WindowParts (F32 : Type) where
  roundBase : Option (List F32)
  values : Std.ExtTreeMap Nat (List F32)
  indices : Std.ExtTreeMap Nat (List Nat)

/-- The two passes of an ingest. -/
inductive IngestPhase
  | norms
  | fold
  deriving DecidableEq, Repr

/-- A part with its decoded contents. -/
inductive Arrival (F32 : Type)
  | roundBase (state : List F32)
  | values (peer : Nat) (rows : List F32)
  | indices (peer : Nat) (rows : List Nat)
  deriving DecidableEq

namespace WindowParts

/-- No part has arrived. -/
def empty : WindowParts F32 := { roundBase := none, values := ∅, indices := ∅ }

/-- Stash a part, replacing what was there. -/
def put (parts : WindowParts F32) : Arrival F32 → WindowParts F32
  | .roundBase state => { parts with roundBase := some state }
  | .values peer rows => { parts with values := parts.values.insert peer rows }
  | .indices peer rows => { parts with indices := parts.indices.insert peer rows }

/-- Whether the parts a phase folds with have all arrived. -/
def complete (parts : WindowParts F32) (phase : IngestPhase) (peers : Nat) : Bool :=
  match phase with
  | .norms => parts.values.size == peers
  | .fold => parts.roundBase.isSome && parts.values.size == peers && parts.indices.size == peers

end WindowParts

/-- The streamed `sparse_loco` ingest. -/
structure SparseLocoIngestWalk (F32 F64 Hasher : Type) where
  cfg : SparseLocoCfg F64
  schedule : List Window
  inFlight : Nat
  layout : PayloadLayout
  peers : Nat
  /-- The divisor of the mean. -/
  count : Nat
  phase : IngestPhase
  walk : FoldWalk
  /-- Windows whose parts are arriving. -/
  parts : Std.ExtTreeMap Nat (WindowParts F32)
  /-- Sum of squares, by peer and parameter. -/
  sumsq : List (List F32)
  /-- Clip scale, by peer and parameter. -/
  scale : List (List F64)
  started : Bool
  carry : DigestCarry Hasher

/-- The median of the norms, or infinity without any. -/
def medianOf (floats : Floats F32 F64) (norms : List F64) : F64 :=
  if norms = [] then floats.infinity64
  else
    let sorted := norms.insertionSort fun left right => floats.totalLe64 left right = true
    let middle := sorted.length / 2
    if sorted.length % 2 = 1 then sorted.getD middle floats.infinity64
    else
      floats.mul64 floats.half64
        (floats.add64 (sorted.getD (middle - 1) floats.infinity64)
          (sorted.getD middle floats.infinity64))

namespace SparseLocoIngestWalk

variable (floats : Floats F32 F64) (xxh : Xxh3 Hasher)

/-- A walk over the payloads of `peers` peers. -/
def new (mode : Overflow) (cfg : SparseLocoCfg F64) (numels : List Nat)
    (windowSize inFlight peers : Nat) (carry : DigestCarry Hasher) :
    Option (Except String (SparseLocoIngestWalk F32 F64 Hasher)) :=
  match validateGeometry numels cfg.chunk windowSize with
  | .error refusal => some (.error refusal)
  | .ok () => do
    match ← PayloadLayout.new mode cfg numels windowSize with
    | .error refusal => some (.error refusal)
    | .ok layout =>
      some (.ok
        { cfg
          schedule := layout.schedule
          inFlight
          layout
          peers
          count := max peers 1
          -- Without peers there is nothing to clip against.
          phase := if cfg.clip && decide (0 < peers) then .norms else .fold
          walk := .new layout.schedule.length inFlight
          parts := ∅
          sumsq := List.replicate peers (List.replicate numels.length (floats.ofNat 0))
          scale := List.replicate peers (List.replicate numels.length (floats.ofNat64 1))
          started := false
          carry })

variable (walk : SparseLocoIngestWalk F32 F64 Hasher)

/-- The reads of one peer's parts of a window. -/
def peerFetches (window : Window) (ordinal peer : Nat) : Option (List IngestFetch) :=
  if 2 ^ 32 ≤ peer then none
  else do
    let values ← walk.layout.valuesSpan ordinal
    match walk.phase with
    | .norms => some [⟨.values peer, window, some values⟩]
    | .fold =>
      let indices ← walk.layout.indicesSpan ordinal
      some [⟨.values peer, window, some values⟩, ⟨.indices peer, window, some indices⟩]

/-- The reads of one window in the phase in flight. -/
def windowFetches (ordinal : Nat) : Option (List IngestFetch) := do
  let window ← walk.schedule[ordinal]?
  let payload ← (List.range walk.peers).mapM (walk.peerFetches window ordinal)
  match walk.phase with
  | .norms => some payload.flatten
  | .fold => some (⟨.roundBase, window, none⟩ :: payload.flatten)

/-- The reads of some windows. -/
def fetchesFor (ordinals : List Nat) : Option (List IngestFetch) := do
  let fetches ← ordinals.mapM walk.windowFetches
  some fetches.flatten

/-- The norms of one parameter become clip scales. -/
def clipParam (sumsq : List (List F32)) (scale : List (List F64)) (param : Nat) :
    Option (List (List F64)) := do
  let norms ← sumsq.mapM fun row => do
    let sum ← row[param]?
    some (floats.widen (floats.sqrt sum))
  let median := medianOf floats norms
  some (List.zipWith (fun row norm =>
    row.set param
      (if floats.lt64 median norm && floats.lt64 (floats.ofNat64 0) norm then
        floats.div64 median norm
      else floats.ofNat64 1)) scale norms)

/-- Close the norm pass and open the fold pass. -/
def advanceToFold : Option (IngestSlice F32 × SparseLocoIngestWalk F32 F64 Hasher) := do
  let params := walk.scale.head?.elim 0 List.length
  let scale ← (List.range params).foldlM (clipParam floats walk.sumsq) walk.scale
  let (actions, cursor) := (FoldWalk.new walk.schedule.length walk.inFlight).start
  let walk := { walk with scale, phase := .fold, walk := cursor, parts := ∅ }
  let issue ← walk.fetchesFor actions.issue
  some (⟨[], issue, actions.seals⟩, walk)

/-- The opening slice. -/
def start : Option (Except String (IngestSlice F32) × SparseLocoIngestWalk F32 F64 Hasher) :=
  if walk.started then some (.error "walk already started", walk)
  else do
    let (actions, cursor) := walk.walk.start
    let walk := { walk with started := true, walk := cursor }
    let issue ← walk.fetchesFor actions.issue
    if actions.seals && walk.phase == .norms then
      let (opening, walk) ← advanceToFold floats walk
      some (.ok opening, walk)
    else some (.ok ⟨[], issue, actions.seals⟩, walk)

/-- Decode a part and check its length, before it touches the walk. -/
def decodePart (part : IngestPart) (ordinal : Nat) (bytes : List Byte) :
    Option (Except String (Arrival F32)) :=
  match part with
  | .roundBase => some do
      let state ← leBytesToF32s floats bytes
      checkWindowInput walk.schedule ordinal "round-base" state.length
      .ok (.roundBase state)
  | .values peer => do
    let decoded ← walk.layout.decodeValues floats ordinal bytes
    some ((decoded.mapError fun refusal =>
      "peer " ++ toString peer ++ ": " ++ refusal).map (.values peer))
  | .indices peer => do
    let decoded ← walk.layout.decodeIndices ordinal bytes
    some ((decoded.mapError fun refusal =>
      "peer " ++ toString peer ++ ": " ++ refusal).map (.indices peer))

/-- Stash a part of a window. -/
def stash (ordinal : Nat) (arrival : Arrival F32) : SparseLocoIngestWalk F32 F64 Hasher :=
  { walk with
    parts := walk.parts.insert ordinal (((walk.parts[ordinal]?).getD .empty).put arrival) }

/-- Whether a window has every part the phase folds with. -/
def windowComplete (ordinal : Nat) : Bool :=
  match walk.parts[ordinal]? with
  | none => false
  | some parts => parts.complete walk.phase walk.peers

/-- Add the squares of one peer's rows to its carry. -/
def addSquares (param : Nat) (sumsq : List (List F32)) (entry : Nat × List F32) :
    Option (List (List F32)) := do
  let row ← sumsq[entry.1]?
  let sum ← row[param]?
  some (sumsq.set entry.1 (row.set param (detSumsqInto floats sum entry.2)))

def foldNorms (window : Window) (parts : WindowParts F32) :
    Option (SparseLocoIngestWalk F32 F64 Hasher) := do
  let sumsq ← parts.values.toList.foldlM (addSquares floats window.param) walk.sumsq
  some { walk with sumsq }

/-- Scatter the scaled rows of one peer into the sum. -/
def scatterPeer (window : Window) (parts : WindowParts F32) (sum : Except String (List F32))
    (peer : Nat) : Option (Except String (List F32)) :=
  match sum with
  | .error refusal => some (.error refusal)
  | .ok sum =>
    if 2 ^ 32 ≤ peer then none
    else
      match parts.values[peer]?, parts.indices[peer]? with
      | none, _ => some (.error ("window fold missing peer " ++ toString peer ++ " values"))
      | some _, none => some (.error ("window fold missing peer " ++ toString peer ++ " indices"))
      | some values, some indices => do
        let row ← walk.scale[peer]?
        let factor ← row[window.param]?
        some ((detChunkScatterAdd floats sum (detScale floats values factor) indices
          walk.cfg.chunk).mapError fun refusal => "scatter_add: " ++ refusal.debug)

/-- The master fold of a window: the mean of the scaled contributions is
subtracted from the round base. -/
def foldWindow (window : Window) (parts : WindowParts F32) : Option (Except String (List F32)) :=
  match parts.roundBase with
  | none => some (.error "a folded window holds its round base")
  | some base => do
    let sum ← (List.range walk.peers).foldlM (walk.scatterPeer floats window parts)
      (.ok (List.replicate (windowElems window) (floats.ofNat 0)))
    match sum with
    | .error refusal => some (.error refusal)
    | .ok sum =>
      let alpha := floats.div64 (floats.neg64 walk.cfg.outerAlpha) (floats.ofNat64 walk.count)
      some ((detAxpy floats base alpha sum).mapError fun refusal =>
        "axpy: " ++ refusal.debug)

/-- One turn of the fold loop: take the parts of a window off the stash and fold
them. The master window is emitted and fed to the digest. -/
def foldOne (ordinal : Nat) :
    Option (Except String (List (Window × List F32)) × SparseLocoIngestWalk F32 F64 Hasher) := do
  let window ← walk.schedule[ordinal]?
  match walk.parts[ordinal]? with
  | none =>
    some (.error ("window " ++ toString ordinal ++ " foldable without stashed inputs"), walk)
  | some parts =>
    let walk := { walk with parts := walk.parts.erase ordinal }
    match walk.phase with
    | .norms =>
      let walk ← walk.foldNorms floats window parts
      some (.ok [], walk)
    | .fold =>
      match ← walk.foldWindow floats window parts with
      | .error refusal => some (.error refusal, walk)
      | .ok master =>
        let carry := walk.carry.update xxh (f32sToLeBytes floats master)
        some (.ok [(window, master)], { walk with carry })

/-- The loop that folds the windows of a slice, up to the first that is
refused. -/
def foldWindows : List Nat → SparseLocoIngestWalk F32 F64 Hasher →
    Option (Except String (List (Window × List F32)) × SparseLocoIngestWalk F32 F64 Hasher)
  | [], walk => some (.ok [], walk)
  | ordinal :: ordinals, walk => do
    let (folded, walk) ← walk.foldOne floats xxh ordinal
    match folded with
    | .error refusal => some (.error refusal, walk)
    | .ok first =>
      let (emitted, walk) ← foldWindows ordinals walk
      some (emitted.map (first ++ ·), walk)

/-- What follows a completed window: fold, issue, and open the fold pass when the
norm pass seals. -/
def advance (actions : SliceActions) :
    Option (Except String (IngestSlice F32) × SparseLocoIngestWalk F32 F64 Hasher) := do
  let (folded, walk) ← walk.foldWindows floats xxh actions.fold
  match folded with
  | .error refusal => some (.error refusal, walk)
  | .ok emitted =>
    let issue ← walk.fetchesFor actions.issue
    if actions.seals && walk.phase == .norms then
      let (opening, walk) ← walk.advanceToFold floats
      some (.ok ⟨emitted, opening.issue, opening.sealed⟩, walk)
    else some (.ok ⟨emitted, issue, actions.seals⟩, walk)

/-- One read completed. -/
def onPartReady (part : IngestPart) (ordinal : Nat) (bytes : List Byte) :
    Option (Except String (IngestSlice F32) × SparseLocoIngestWalk F32 F64 Hasher) :=
  if !walk.started then some (.error "walk not started", walk)
  else do
    match ← walk.decodePart floats part ordinal bytes with
    | .error refusal => some (.error refusal, walk)
    | .ok arrival =>
      -- The part is stashed before the schedule is asked.
      let walk := walk.stash ordinal arrival
      if !walk.windowComplete ordinal then some (.ok ⟨[], [], false⟩, walk)
      else
        match walk.walk.onCompletion ordinal with
        | (.error unexpected, cursor) =>
          some (.error unexpected.message, { walk with walk := cursor })
        | (.ok actions, cursor) => advance floats xxh { walk with walk := cursor } actions

/-- The digest carry of a finished walk. -/
def sealCarry : Except String (DigestCarry Hasher) :=
  if walk.phase ≠ .fold ∨ walk.walk.sealed = false then
    .error "ingest walk sealed before every window folded"
  else .ok walk.carry

/-- One delivery: the part, its window and its bytes. -/
structure Delivery where
  part : IngestPart
  ordinal : Nat
  bytes : List Byte
  deriving DecidableEq, Repr

def step : Machine.StepFunction (SparseLocoIngestWalk F32 F64 Hasher) Delivery
    (Except String (IngestSlice F32)) :=
  fun walk delivery => do
    let (answer, after) ← walk.onPartReady floats xxh delivery.part delivery.ordinal delivery.bytes
    some (after, [answer])

end SparseLocoIngestWalk

end DaemonNode
