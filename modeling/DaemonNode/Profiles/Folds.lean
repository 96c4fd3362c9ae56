import DaemonNode.Lib.Maps
import DaemonNode.Profiles.Streaming

/-!
# Folding a stashed window

The parts of a window arrive one by one, each checked for its shape before it is
stashed. A window that holds every part of its phase, each in its shape, is
folded without a refusal: the shapes are the ones the kernels ask for.
-/

namespace DaemonNode

open DetState (stateElemBytes)
open Option (bind_eq_some_iff)

/-- The parts of one peer a phase folds a window with. -/
def IngestPhase.peerParts : IngestPhase → Nat → List IngestPart
  | .norms, peer => [.values peer]
  | .fold, peer => [.values peer, .indices peer]

/-- The parts a phase folds a window with. -/
def IngestPhase.parts (phase : IngestPhase) (peers : Nat) : List IngestPart :=
  (match phase with
    | .norms => []
    | .fold => [.roundBase]) ++ (List.range peers).flatMap phase.peerParts

/-- The peer of a part is one of the walk's. -/
def IngestPart.InRange (peers : Nat) : IngestPart → Prop
  | .roundBase => True
  | .values peer => peer < peers
  | .indices peer => peer < peers

section Parts

variable {phase : IngestPhase}

open IngestPhase (peerParts)

theorem mem_parts_norms :
    part ∈ IngestPhase.norms.parts peers ↔ ∃ peer < peers, part = .values peer := by
  simp [IngestPhase.parts, peerParts]

theorem mem_parts_fold : part ∈ IngestPhase.fold.parts peers ↔ part.InRange peers := by
  cases part <;> simp [IngestPhase.parts, peerParts, IngestPart.InRange]

theorem fold_parts_ne_nil (peers : Nat) : IngestPhase.fold.parts peers ≠ [] :=
  List.cons_ne_nil _ _

theorem inRange_of_mem_parts (member : part ∈ phase.parts peers) : part.InRange peers := by
  cases phase with
  | norms =>
    obtain ⟨peer, less, rfl⟩ := mem_parts_norms.mp member
    exact less
  | fold => exact mem_parts_fold.mp member

theorem nodup_parts (phase : IngestPhase) (peers : Nat) : (phase.parts peers).Nodup := by
  have payload : ((List.range peers).flatMap phase.peerParts).Nodup := by
    refine List.nodup_flatMap.mpr ⟨?_, List.nodup_range.imp ?_⟩
    · intro peer _
      cases phase <;> simp [peerParts]
    · intro first second different
      cases phase <;> simp [Function.onFun, peerParts, different.symm]
  cases phase with
  | norms => exact payload
  | fold => exact List.nodup_cons.mpr ⟨by simp [peerParts], payload⟩

end Parts

def Arrival.part : Arrival F32 → IngestPart
  | .roundBase _ => .roundBase
  | .values peer _ => .values peer
  | .indices peer _ => .indices peer

/-- The contents of an arrival have the shape of its window. -/
def Arrival.Fits (layout : PayloadLayout) (window : Window) : Arrival F32 → Prop
  | .roundBase state => state.length = windowElems window
  | .values _ rows => rows.length = window.len / (layout.chunk * stateElemBytes) * layout.topk
  | .indices _ rows =>
    rows.length = window.len / (layout.chunk * stateElemBytes) * layout.topk ∧
      ∀ index ∈ rows, index < layout.chunk

namespace WindowParts

variable {parts : WindowParts F32}
variable {layout : PayloadLayout} {window : Window}

/-- Whether a part has arrived. -/
def holds (parts : WindowParts F32) : IngestPart → Bool
  | .roundBase => parts.roundBase.isSome
  | .values peer => parts.values.contains peer
  | .indices peer => parts.indices.contains peer

@[simp] theorem holds_empty (part : IngestPart) : (empty : WindowParts F32).holds part = false := by
  cases part <;> simp [holds, empty]

theorem holds_put :
    (parts.put arrival).holds part = true ↔ part = arrival.part ∨ parts.holds part = true := by
  cases arrival with
  | roundBase state => cases part <;> simp [holds, put, Arrival.part]
  | values peer rows =>
    cases part with
    | values other => simp [holds, put, Arrival.part, eq_comm (a := peer)]
    | _ => simp [holds, put, Arrival.part]
  | indices peer rows =>
    cases part with
    | indices other => simp [holds, put, Arrival.part, eq_comm (a := peer)]
    | _ => simp [holds, put, Arrival.part]

/-- A window whose parts are the walk's own is complete when it holds each part of
the phase. -/
theorem complete_iff (inRange : ∀ part, parts.holds part = true → part.InRange peers) :
    parts.complete phase peers = true ↔ ∀ part ∈ phase.parts peers, parts.holds part = true := by
  have ownValues : ∀ peer ∈ parts.values, peer < peers :=
    fun peer member => inRange (.values peer) (by simpa [holds] using member)
  have ownIndices : ∀ peer ∈ parts.indices, peer < peers :=
    fun peer member => inRange (.indices peer) (by simpa [holds] using member)
  have values := Maps.size_eq_iff_of_keys ownValues
  have indices := Maps.size_eq_iff_of_keys ownIndices
  cases phase with
  | norms =>
    rw [complete, beq_iff_eq, values]
    constructor
    · intro every part member
      obtain ⟨peer, less, rfl⟩ := mem_parts_norms.mp member
      simpa [holds] using every peer less
    · intro every peer less
      simpa [holds] using every (.values peer) (mem_parts_norms.mpr ⟨peer, less, rfl⟩)
  | fold =>
    rw [complete, Bool.and_eq_true, Bool.and_eq_true, beq_iff_eq, beq_iff_eq, values, indices]
    constructor
    · rintro ⟨⟨base, values⟩, indices⟩ part member
      cases part with
      | roundBase => exact base
      | values peer => simpa [holds] using values peer (mem_parts_fold.mp member)
      | indices peer => simpa [holds] using indices peer (mem_parts_fold.mp member)
    · intro every
      refine ⟨⟨every .roundBase (mem_parts_fold.mpr trivial), ?_⟩, ?_⟩
      · intro peer less
        simpa [holds] using every (.values peer) (mem_parts_fold.mpr less)
      · intro peer less
        simpa [holds] using every (.indices peer) (mem_parts_fold.mpr less)

/-- Everything stashed has the shape of its window. -/
structure Fits (layout : PayloadLayout) (window : Window) (parts : WindowParts F32) :
    Prop where
  roundBase : ∀ state, parts.roundBase = some state → (Arrival.roundBase state).Fits layout window
  values : ∀ (peer : Nat) rows, parts.values[peer]? = some rows →
    (Arrival.values peer rows).Fits layout window
  indices : ∀ (peer : Nat) rows, parts.indices[peer]? = some rows →
    (Arrival.indices peer rows : Arrival F32).Fits layout window

theorem fits_empty : (empty : WindowParts F32).Fits layout window :=
  ⟨by simp [empty], by simp [empty], by simp [empty]⟩

end WindowParts

namespace SparseLocoIngestWalk

variable {walk after : SparseLocoIngestWalk F32 F64 Hasher}
variable {part : IngestPart} {ordinal : Nat}

/-- The layout a walk was built with. -/
structure Geometry (walk : SparseLocoIngestWalk F32 F64 Hasher) : Prop where
  laid : walk.layout.Laid
  schedule : walk.layout.schedule = walk.schedule
  chunk : walk.layout.chunk = walk.cfg.chunk

section

variable (geometry : walk.Geometry)

include geometry

theorem Geometry.ordinal_eq (scheduled : walk.schedule[ordinal]? = some window) :
    window.ordinal = ordinal := by
  have listed := congrArg (fun ordinals : List Nat => ordinals[ordinal]?) geometry.laid.ordinals
  rw [geometry.schedule] at listed
  simp only [List.getElem?_map, scheduled, Option.map_some] at listed
  rw [List.getElem?_range (List.getElem?_eq_some_iff.mp scheduled).1] at listed
  exact Option.some.inj listed

/-- A part that decodes is the part that was asked for, in the shape of its
window. -/
theorem Geometry.fits_of_decodePart
    (decoded : walk.decodePart floats part ordinal bytes = some (.ok arrival)) :
    arrival.part = part ∧ ∀ window, walk.schedule[ordinal]? = some window →
      arrival.Fits walk.layout window := by
  suffices shaped : arrival.part = part ∧ ∃ window, walk.schedule[ordinal]? = some window ∧
      arrival.Fits walk.layout window by
    obtain ⟨same, window, scheduled, fits⟩ := shaped
    refine ⟨same, fun other found => ?_⟩
    cases scheduled.symm.trans found
    exact fits
  rw [← geometry.schedule]
  cases part with
  | roundBase =>
    obtain ⟨state, -, decoded⟩ := Checks.bind_eq_ok_iff.mp (Option.some.inj decoded)
    obtain ⟨_, checked, built⟩ := Checks.bind_eq_ok_iff.mp decoded
    cases built
    unfold checkWindowInput at checked
    split at checked
    · cases checked
    rename_i window scheduled
    split at checked
    · cases checked
    rename_i length
    rw [geometry.schedule]
    exact ⟨rfl, window, scheduled, not_not.mp length⟩
  | values peer =>
    obtain ⟨_ | rows, unpacked, decoded⟩ := bind_eq_some_iff.mp decoded
    · cases decoded
    cases decoded
    exact ⟨rfl, geometry.laid.length_of_decodeValues unpacked⟩
  | indices peer =>
    obtain ⟨_ | rows, unpacked, decoded⟩ := bind_eq_some_iff.mp decoded
    · cases decoded
    cases decoded
    exact ⟨rfl, PayloadLayout.spec_of_decodeIndices unpacked⟩

/-- With every part in its shape no contribution is refused. -/
theorem Geometry.scatterPeer_ok (scheduled : window ∈ walk.schedule) {parts : WindowParts F32}
    (fits : parts.Fits walk.layout window) (values : parts.holds (.values peer) = true)
    (indices : parts.holds (.indices peer) = true) (length : sum.length = windowElems window)
    (scattered : walk.scatterPeer floats window parts (.ok sum) peer = some result) :
    ∃ next, result = .ok next ∧ next.length = windowElems window := by
  obtain ⟨rows, valuesFound⟩ : ∃ rows, parts.values[peer]? = some rows := by
    rw [← Option.isSome_iff_exists]
    simpa [WindowParts.holds] using values
  obtain ⟨positions, indicesFound⟩ : ∃ positions, parts.indices[peer]? = some positions := by
    rw [← Option.isSome_iff_exists]
    simpa [WindowParts.holds] using indices
  unfold scatterPeer at scattered
  dsimp only at scattered
  split at scattered
  · cases scattered
  rw [valuesFound, indicesFound] at scattered
  dsimp only at scattered
  obtain ⟨row, _, scattered⟩ := bind_eq_some_iff.mp scattered
  obtain ⟨factor, _, scattered⟩ := bind_eq_some_iff.mp scattered
  have aligned := geometry.laid.aligned window (geometry.schedule ▸ scheduled)
  have elements : windowElems window =
      window.len / (walk.layout.chunk * stateElemBytes) * walk.layout.chunk := by
    obtain ⟨rowCount, len⟩ := aligned
    have positive : 0 < walk.layout.chunk * stateElemBytes :=
      Nat.mul_pos geometry.laid.chunk_pos (by decide)
    rw [windowElems, len, Nat.mul_div_cancel_left _ positive, Nat.mul_right_comm,
      Nat.mul_div_cancel _ (by decide), Nat.mul_comm]
  obtain ⟨positionsLength, inside⟩ := fits.indices peer positions indicesFound
  have valuesLength : (detScale floats rows factor).length =
      window.len / (walk.layout.chunk * stateElemBytes) * walk.layout.topk := by
    rw [detScale, List.length_map]
    exact fits.values peer rows valuesFound
  obtain ⟨next, added, nextLength⟩ := detChunkScatterAdd_ok floats geometry.laid.chunk_pos
    (length.trans elements) valuesLength positionsLength inside
  rw [← geometry.chunk, added] at scattered
  cases scattered
  exact ⟨next, rfl, nextLength.trans length⟩

theorem Geometry.foldWindow_ok (scheduled : window ∈ walk.schedule) {parts : WindowParts F32}
    (fits : parts.Fits walk.layout window)
    (every : ∀ part ∈ IngestPhase.fold.parts walk.peers, parts.holds part = true)
    (folded : walk.foldWindow floats window parts = some result) :
    ∃ master, result = .ok master := by
  obtain ⟨base, baseFound⟩ := Option.isSome_iff_exists.mp
    (every .roundBase (mem_parts_fold.mpr trivial))
  unfold foldWindow at folded
  rw [baseFound] at folded
  obtain ⟨sum, scattered, folded⟩ := bind_eq_some_iff.mp folded
  have kept : ∀ (peers : List Nat) (start : List F32) result,
      (∀ peer ∈ peers, peer < walk.peers) →
      start.length = windowElems window →
      peers.foldlM (walk.scatterPeer floats window parts) (.ok start) = some result →
      ∃ sum, result = .ok sum ∧ sum.length = windowElems window := by
    intro peers
    induction peers with
    | nil =>
      rintro start _ _ length ⟨⟩
      exact ⟨start, rfl, length⟩
    | cons peer peers ih =>
      intro start result less length scattered
      obtain ⟨next, stepped, rest⟩ := bind_eq_some_iff.mp scattered
      have own := less peer List.mem_cons_self
      obtain ⟨sum, rfl, sumLength⟩ := geometry.scatterPeer_ok scheduled fits
        (every (.values peer) (mem_parts_fold.mpr own))
        (every (.indices peer) (mem_parts_fold.mpr own)) length stepped
      exact ih sum result
        (fun other member => less other (List.mem_cons_of_mem _ member)) sumLength rest
  obtain ⟨total, rfl, length⟩ := kept _ _ _ (fun peer member => List.mem_range.mp member)
    List.length_replicate scattered
  dsimp only at folded
  have same := (fits.roundBase base baseFound).trans length.symm
  rw [detAxpy, if_neg (not_not_intro same)] at folded
  cases folded
  exact ⟨_, rfl⟩

end

/-- A window that is stashed in full, in its shape. -/
def Ready (walk : SparseLocoIngestWalk F32 F64 Hasher) (ordinal : Nat) : Prop :=
  ∃ window parts, walk.schedule[ordinal]? = some window ∧
    walk.parts[ordinal]? = some parts ∧ parts.Fits walk.layout window ∧
      ∀ part ∈ walk.phase.parts walk.peers, parts.holds part = true

/-- A turn of the fold loop changes the stash of its window, the norms and the
carry. -/
theorem foldOne_frame (stepped : walk.foldOne floats xxh ordinal = some (folded, after)) :
    ∃ sumsq carry, after = { walk with parts := walk.parts.erase ordinal, sumsq, carry } := by
  obtain ⟨window, _, stepped⟩ := bind_eq_some_iff.mp stepped
  cases stashed : walk.parts[ordinal]? with
  | none =>
    rw [stashed] at stepped
    cases stepped
    exact ⟨walk.sumsq, walk.carry, by rw [Maps.erase_eq_self stashed]⟩
  | some parts =>
    rw [stashed] at stepped
    dsimp only at stepped
    cases phase : walk.phase with
    | norms =>
      rw [phase] at stepped
      obtain ⟨summed, added, stepped⟩ := bind_eq_some_iff.mp stepped
      obtain ⟨sumsq, _, built⟩ := bind_eq_some_iff.mp added
      cases built
      cases stepped
      exact ⟨sumsq, walk.carry, by rw [← phase]⟩
    | fold =>
      rw [phase] at stepped
      obtain ⟨master, _, stepped⟩ := bind_eq_some_iff.mp stepped
      cases master with
      | error refusal =>
        cases stepped
        exact ⟨walk.sumsq, walk.carry, by rw [← phase]⟩
      | ok master =>
        cases stepped
        exact ⟨walk.sumsq, _, by rw [← phase]⟩

theorem Geometry.foldOne_ok (geometry : walk.Geometry) (ready : walk.Ready ordinal)
    (stepped : walk.foldOne floats xxh ordinal = some (folded, after)) :
    ∃ emitted, folded = .ok emitted := by
  obtain ⟨window, parts, scheduled, stashed, fits, every⟩ := ready
  obtain ⟨other, found, stepped⟩ := bind_eq_some_iff.mp stepped
  cases scheduled.symm.trans found
  rw [stashed] at stepped
  dsimp only at stepped
  cases phase : walk.phase with
  | norms =>
    rw [phase] at stepped
    obtain ⟨summed, _, stepped⟩ := bind_eq_some_iff.mp stepped
    cases stepped
    exact ⟨_, rfl⟩
  | fold =>
    rw [phase] at stepped every
    obtain ⟨master, folded, stepped⟩ := bind_eq_some_iff.mp stepped
    have same : Geometry { walk with parts := walk.parts.erase ordinal } :=
      { geometry with }
    obtain ⟨master, rfl⟩ := same.foldWindow_ok (List.mem_of_getElem? scheduled) fits
      every (by rw [← phase] at folded; exact folded)
    cases stepped
    exact ⟨_, rfl⟩

/-- The fold loop changes the stash of its windows, the norms and the carry. -/
theorem foldWindows_frame (looped : walk.foldWindows floats xxh ordinals = some (folded, after)) :
    ∃ parts sumsq carry, after = { walk with parts, sumsq, carry } ∧
      (∀ window, window ∉ ordinals → parts[window]? = walk.parts[window]?) ∧
      ∀ emitted, folded = .ok emitted → ∀ window ∈ ordinals, parts[window]? = none := by
  induction ordinals generalizing walk folded with
  | nil =>
    cases looped
    exact ⟨after.parts, after.sumsq, after.carry, rfl, fun _ _ => rfl, by simp⟩
  | cons ordinal ordinals ih =>
    obtain ⟨⟨first, next⟩, stepped, looped⟩ := bind_eq_some_iff.mp looped
    obtain ⟨sumsq, carry, rfl⟩ := foldOne_frame stepped
    cases first with
    | error refusal =>
      cases looped
      refine ⟨_, sumsq, carry, rfl, ?_, by simp⟩
      intro window outside
      apply Maps.getElem?_erase_of_ne
      rintro rfl
      exact outside List.mem_cons_self
    | ok first =>
      obtain ⟨⟨rest, final⟩, looped, built⟩ := bind_eq_some_iff.mp looped
      cases built
      obtain ⟨parts, sumsq, carry, rfl, outside, inside⟩ := ih looped
      refine ⟨parts, sumsq, carry, rfl, ?_, ?_⟩
      · intro window absent
        rw [List.mem_cons, not_or] at absent
        exact (outside window absent.2).trans (Maps.getElem?_erase_of_ne absent.1)
      · intro emitted succeeded window member
        cases rest with
        | error refusal => cases succeeded
        | ok rest =>
          by_cases later : window ∈ ordinals
          · exact inside rest rfl window later
          · obtain rfl := (List.mem_cons.mp member).resolve_right later
            rw [outside window later]
            exact Std.ExtTreeMap.getElem?_erase_self

theorem Geometry.foldWindows_ok (geometry : walk.Geometry) (distinct : ordinals.Nodup)
    (ready : ∀ ordinal ∈ ordinals, walk.Ready ordinal)
    (looped : walk.foldWindows floats xxh ordinals = some (folded, after)) :
    ∃ emitted, folded = .ok emitted := by
  induction ordinals generalizing walk folded with
  | nil =>
    cases looped
    exact ⟨[], rfl⟩
  | cons ordinal ordinals ih =>
    obtain ⟨⟨first, next⟩, stepped, looped⟩ := bind_eq_some_iff.mp looped
    obtain ⟨first, rfl⟩ := geometry.foldOne_ok (ready ordinal List.mem_cons_self) stepped
    obtain ⟨sumsq, carry, rfl⟩ := foldOne_frame stepped
    obtain ⟨⟨rest, final⟩, looped, built⟩ := bind_eq_some_iff.mp looped
    cases built
    obtain ⟨absent, distinct⟩ := List.nodup_cons.mp distinct
    have still : ∀ later ∈ ordinals, Ready
        { walk with parts := walk.parts.erase ordinal, sumsq, carry } later := by
      intro later member
      obtain ⟨window, parts, scheduled, stashed, fits⟩ :=
        ready later (List.mem_cons_of_mem _ member)
      refine ⟨window, parts, scheduled, ?_, fits⟩
      refine (Maps.getElem?_erase_of_ne ?_).trans stashed
      rintro rfl
      exact absent member
    have same : Geometry { walk with parts := walk.parts.erase ordinal, sumsq, carry } :=
      { geometry with }
    obtain ⟨emitted, rfl⟩ := ih same distinct still looped
    exact ⟨_, rfl⟩

end SparseLocoIngestWalk

end DaemonNode
