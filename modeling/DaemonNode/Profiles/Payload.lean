import DaemonNode.Consensus.Windows
import DaemonNode.Det.Packing

/-!
# The committed-update layout

A peer's committed update is a header followed, window by window, by its packed
value rows and its packed index rows. Every byte range follows from the run's
geometry, so a consumer reads the rows of one window without decoding the rest.
The geometry is checked before a range is computed: the profile chunk divides
every parameter and the window size, so no row spans two windows.

Lengths and offsets are computed in words, so the layout says what it does when
one of them leaves its word.
-/

namespace DaemonNode

open DetState (stateElemBytes)
open Word (Overflow)

/-- The fields of the `sparse_loco` configuration an ingest reads. -/
structure SparseLocoCfg (F64 : Type) where
  (chunk topk bits : Nat)
  outerAlpha : F64
  clip : Bool

/-- Every parameter has elements, a multiple of the profile chunk. -/
def checkNumels (chunk : Nat) : Nat → List Nat → Except String Unit
  | _, [] => .ok ()
  | position, numel :: numels =>
    if numel = 0 ∨ numel % chunk ≠ 0 then
      .error ("profile chunk " ++ toString chunk ++ " does not divide parameter " ++
        toString position ++ "'s numel " ++ toString numel)
    else checkNumels chunk (position + 1) numels

/-- The window size is a positive multiple of the profile chunk's bytes. -/
def checkWindowSize (chunk windowSize : Nat) : Except String Unit :=
  let width := chunk * stateElemBytes
  if windowSize = 0 ∨ windowSize % width ≠ 0 then
    .error ("window size " ++ toString windowSize ++
      " must be a non-zero multiple of the profile chunk byte width " ++ toString width)
  else .ok ()

/-- The geometry rules of the fold walks. -/
def validateGeometry (numels : List Nat) (chunk windowSize : Nat) : Except String Unit :=
  if chunk = 0 then .error "profile chunk must be > 0"
  else if numels = [] then .error "windowed fold needs a non-empty parameter layout"
  else do
    checkNumels chunk 0 numels
    checkWindowSize chunk windowSize

/-- The bytes in front of the first section. -/
def headerBytes : Nat := 40

/-- The layout of a run's committed updates. -/
structure PayloadLayout where
  (chunk topk bits windowSize params : Nat)
  schedule : List Window
  /-- Offset and length of each window's values, then of its indices. -/
  spans : List (Nat × Nat × Nat × Nat)
  totalLen : Nat
  deriving DecidableEq, Repr

namespace PayloadLayout

/-- The rules of the layout. -/
def checkLayout (cfg : SparseLocoCfg F64) (numels : List Nat) (windowSize : Nat) :
    Except String Unit :=
  if cfg.chunk = 0 ∨ numels = [] then
    .error "a committed-update layout needs a non-empty layout and chunk > 0"
  else if cfg.topk = 0 ∨ cfg.chunk < cfg.topk then
    .error ("topk " ++ toString cfg.topk ++ " must be in 1..=" ++ toString cfg.chunk)
  else do
    checkNumels cfg.chunk 0 numels
    checkWindowSize cfg.chunk windowSize

/-- The sections of one window from a cursor on; it answers with the span and the
next cursor. -/
def sectionSpan (mode : Overflow) (cfg : SparseLocoCfg F64) (cursor : Nat)
    (window : Window) : Option (Except String ((Nat × Nat × Nat × Nat) × Nat)) := do
  let rows := window.len / (cfg.chunk * stateElemBytes)
  let valuesLen ← mode.mul 64 rows (absmaxRowBytes cfg.topk cfg.bits)
  let count ← mode.mul 64 rows cfg.topk
  match ← packedIndexLenIn mode count cfg.chunk with
  | .error refusal => some (.error ("index geometry: " ++ refusal.debug))
  | .ok indicesLen => do
    let indicesOff ← mode.add 64 cursor valuesLen
    let both ← mode.add 64 valuesLen indicesLen
    let next ← mode.add 64 cursor both
    some (.ok ((cursor, valuesLen, indicesOff, indicesLen), next))

/-- The loop that places the sections. -/
def sectionSpans (mode : Overflow) (cfg : SparseLocoCfg F64) :
    Nat → List Window → Option (Except String (List (Nat × Nat × Nat × Nat) × Nat))
  | cursor, [] => some (.ok ([], cursor))
  | cursor, window :: windows => do
    match ← sectionSpan mode cfg cursor window with
    | .error refusal => some (.error refusal)
    | .ok (span, next) => do
      match ← sectionSpans mode cfg next windows with
      | .error refusal => some (.error refusal)
      | .ok (later, total) => some (.ok (span :: later, total))

/-- The layout of a parameter list at a window size. -/
def new (mode : Overflow) (cfg : SparseLocoCfg F64) (numels : List Nat)
    (windowSize : Nat) : Option (Except String PayloadLayout) :=
  match checkLayout cfg numels windowSize with
  | .error refusal => some (.error refusal)
  | .ok () => do
    let schedule ← windows mode numels windowSize
    match ← sectionSpans mode cfg headerBytes schedule with
    | .error refusal => some (.error refusal)
    | .ok (spans, totalLen) =>
      some (.ok
        { chunk := cfg.chunk
          topk := cfg.topk
          bits := cfg.bits
          windowSize
          params := numels.length
          schedule
          spans
          totalLen })

/-- The rows of a window; an ordinal past the schedule panics. -/
def windowRows (layout : PayloadLayout) (ordinal : Nat) : Option Nat := do
  let window ← layout.schedule[ordinal]?
  some (window.len / (layout.chunk * stateElemBytes))

/-- The byte range of a window's values; an ordinal past the schedule panics. -/
def valuesSpan (layout : PayloadLayout) (ordinal : Nat) : Option (Nat × Nat) := do
  let span ← layout.spans[ordinal]?
  some (span.1, span.2.1)

/-- The byte range of a window's indices; an ordinal past the schedule panics. -/
def indicesSpan (layout : PayloadLayout) (ordinal : Nat) : Option (Nat × Nat) := do
  let span ← layout.spans[ordinal]?
  some (span.2.2.1, span.2.2.2)

/-- Decode the value rows of a window. -/
def decodeValues (floats : Floats F32 F64) (layout : PayloadLayout) (ordinal : Nat)
    (bytes : List Byte) : Option (Except String (List F32)) := do
  let span ← layout.valuesSpan ordinal
  if bytes.length ≠ span.2 then
    some (.error ("window " ++ toString ordinal ++ ": value rows are " ++
      toString bytes.length ++ " bytes, the layout needs " ++ toString span.2))
  else
    some ((detAbsmaxUnpack floats bytes layout.topk layout.bits).mapError fun refusal =>
      "window " ++ toString ordinal ++ " values: " ++ refusal.debug)

/-- Decode the index rows of a window. -/
def decodeIndices (layout : PayloadLayout) (ordinal : Nat) (bytes : List Byte) :
    Option (Except String (List Nat)) := do
  let rows ← layout.windowRows ordinal
  some ((unpackChunkIndices bytes layout.chunk (rows * layout.topk)).mapError fun refusal =>
    "window " ++ toString ordinal ++ " indices: " ++ refusal.debug)

end PayloadLayout

theorem dvd_of_checkNumels (passed : checkNumels chunk position numels = .ok ()) :
    ∀ numel ∈ numels, chunk ∣ numel := by
  induction numels generalizing position with
  | nil => simp
  | cons numel numels ih =>
    rw [checkNumels] at passed
    split at passed
    · cases passed
    rename_i divides
    push Not at divides
    intro other member
    rcases List.mem_cons.mp member with rfl | later
    · exact Nat.dvd_of_mod_eq_zero divides.2
    · exact ih passed other later

theorem dvd_of_checkWindowSize (passed : checkWindowSize chunk windowSize = .ok ()) :
    0 < windowSize ∧ chunk * stateElemBytes ∣ windowSize := by
  unfold checkWindowSize at passed
  dsimp only at passed
  split at passed
  · cases passed
  · rename_i divides
    push Not at divides
    exact ⟨Nat.pos_of_ne_zero divides.1, Nat.dvd_of_mod_eq_zero divides.2⟩

namespace PayloadLayout

/-- What a layout that was accepted keeps. -/
structure Laid (layout : PayloadLayout) : Prop where
  chunk_pos : 0 < layout.chunk
  aligned : ∀ window ∈ layout.schedule, layout.chunk * stateElemBytes ∣ window.len
  /-- Values of the widths that are decoded take what their rows take. -/
  values : layout.bits ≤ 8 → layout.spans.map (fun span => span.2.1) =
    layout.schedule.map fun window =>
      window.len / (layout.chunk * stateElemBytes) * absmaxRowBytes layout.topk layout.bits
  ordinals : layout.schedule.map Window.ordinal = List.range layout.schedule.length
  params : ∀ window ∈ layout.schedule, window.param < layout.params

section Laid

variable {cfg : SparseLocoCfg F64} {numels : List Nat} {windowSize : Nat}

/-- What the rules of the layout ask. -/
structure Ruled (cfg : SparseLocoCfg F64) (numels : List Nat) (windowSize : Nat) :
    Prop where
  chunk_pos : 0 < cfg.chunk
  topk_le : cfg.topk ≤ cfg.chunk
  numels_aligned : ∀ numel ∈ numels, cfg.chunk ∣ numel
  size_pos : 0 < windowSize
  size_aligned : cfg.chunk * stateElemBytes ∣ windowSize

theorem ruled_of_checkLayout (checked : checkLayout cfg numels windowSize = .ok ()) :
    Ruled cfg numels windowSize := by
  unfold checkLayout at checked
  split at checked
  · cases checked
  split at checked
  · cases checked
  rename_i present dense
  push Not at present dense
  obtain ⟨_, counted, sized⟩ := Checks.bind_eq_ok_iff.mp checked
  obtain ⟨positive, aligned⟩ := dvd_of_checkWindowSize sized
  exact ⟨Nat.pos_of_ne_zero present.1, dense.2, dvd_of_checkNumels counted, positive, aligned⟩

/-- Rows of values that fit a word take what they take in every build. -/
theorem sectionSpans_values {schedule : List Window} {spans : List (Nat × Nat × Nat × Nat)}
    (fit : ∀ window ∈ schedule, window.len / (cfg.chunk * stateElemBytes) *
      absmaxRowBytes cfg.topk cfg.bits < 2 ^ 64)
    (placed : sectionSpans mode cfg cursor schedule = some (.ok (spans, total))) :
    spans.map (fun span => span.2.1) = schedule.map fun window =>
      window.len / (cfg.chunk * stateElemBytes) * absmaxRowBytes cfg.topk cfg.bits := by
  induction schedule generalizing cursor spans total with
  | nil =>
    cases placed
    rfl
  | cons window schedule ih =>
    obtain ⟨own, later⟩ := List.forall_mem_cons.mp fit
    obtain ⟨_ | ⟨span, next⟩, first, placed⟩ := Option.bind_eq_some_iff.mp placed
    · cases placed
    obtain ⟨_ | ⟨rest, _⟩, others, placed⟩ := Option.bind_eq_some_iff.mp placed
    · cases placed
    cases placed
    have length : span.2.1 = window.len / (cfg.chunk * stateElemBytes) *
        absmaxRowBytes cfg.topk cfg.bits := by
      unfold sectionSpan at first
      simp only [mode.mul_of_lt own, Option.bind_eq_bind, Option.bind_some] at first
      obtain ⟨_, -, first⟩ := Option.bind_eq_some_iff.mp first
      obtain ⟨_ | _, -, first⟩ := Option.bind_eq_some_iff.mp first
      · cases first
      obtain ⟨_, -, first⟩ := Option.bind_eq_some_iff.mp first
      obtain ⟨_, -, first⟩ := Option.bind_eq_some_iff.mp first
      obtain ⟨_, -, first⟩ := Option.bind_eq_some_iff.mp first
      cases first
      rfl
    rw [List.map_cons, List.map_cons, ih later others, length]

/-- A packed row of a width that is decoded is no longer than the chunk it stands for. -/
theorem Ruled.rowBytes_le (ruled : Ruled cfg numels windowSize) (narrow : cfg.bits ≤ 8) :
    absmaxRowBytes cfg.topk cfg.bits ≤ cfg.chunk * stateElemBytes := by
  have chunk := ruled.chunk_pos
  have topk := ruled.topk_le
  have codes : cfg.topk * cfg.bits ≤ cfg.topk * 8 := Nat.mul_le_mul_left _ narrow
  unfold absmaxRowBytes
  change _ ≤ cfg.chunk * 4
  omega

/-- A layout whose schedule is the enumeration is laid out. -/
theorem laid_of_enumerate {spans : List (Nat × Nat × Nat × Nat)} {totalLen : Nat}
    (ruled : Ruled cfg numels windowSize)
    (values : cfg.bits ≤ 8 → spans.map (fun span => span.2.1) =
      (enumerate windowSize 0 0 numels).map fun window =>
        window.len / (cfg.chunk * stateElemBytes) * absmaxRowBytes cfg.topk cfg.bits) :
    Laid ⟨cfg.chunk, cfg.topk, cfg.bits, windowSize, numels.length,
      enumerate windowSize 0 0 numels, spans, totalLen⟩ := by
  refine ⟨ruled.chunk_pos, ?_, values, ?_, ?_⟩
  · intro window member
    have len := List.mem_map_of_mem (f := Window.len) member
    rw [map_len_enumerate] at len
    obtain ⟨numel, inside, cut⟩ := List.mem_flatMap.mp len
    exact Parts.dvd_of_mem_cuts ruled.size_aligned
      (Nat.mul_dvd_mul_right (ruled.numels_aligned numel inside) _) cut
  · dsimp only
    rw [map_ordinal_enumerate, List.range_eq_range']
  · intro window member
    simpa using (param_of_mem_enumerate member).2

/-- A layout that is accepted is laid out. -/
theorem laid_of_new (fits : (numels.map (· * stateElemBytes)).sum < 2 ^ 64)
    (built : new mode cfg numels windowSize = some (.ok layout)) :
    layout.Laid ∧ layout.chunk = cfg.chunk ∧ layout.params = numels.length := by
  unfold new at built
  split at built
  · cases built
  rename_i checked
  obtain ⟨schedule, returned, built⟩ := Option.bind_eq_some_iff.mp built
  obtain ⟨_ | sections, placed, built⟩ := Option.bind_eq_some_iff.mp built
  · cases built
  cases built
  have ruled := ruled_of_checkLayout checked
  obtain rfl := eq_enumerate_of_windows ruled.size_pos fits returned
  refine ⟨laid_of_enumerate ruled fun narrow => sectionSpans_values ?_ placed, rfl, rfl⟩
  intro window member
  have short : window.len < 2 ^ 64 := by
    have len := List.mem_map_of_mem (f := Window.len) member
    rw [map_len_enumerate] at len
    obtain ⟨numel, inside, cut⟩ := List.mem_flatMap.mp len
    have whole := Parts.sum_cuts ruled.size_pos (le_refl (numel * stateElemBytes))
    have part := List.le_sum_of_mem cut
    have term := List.le_sum_of_mem (List.mem_map_of_mem (f := (· * stateElemBytes)) inside)
    omega
  calc window.len / (cfg.chunk * stateElemBytes) * absmaxRowBytes cfg.topk cfg.bits
      ≤ window.len / (cfg.chunk * stateElemBytes) * (cfg.chunk * stateElemBytes) :=
        Nat.mul_le_mul_left _ (ruled.rowBytes_le narrow)
    _ ≤ window.len := Nat.div_mul_le_self _ _
    _ < 2 ^ 64 := short

end Laid

section Decode

variable {layout : PayloadLayout}

theorem Laid.length_of_decodeValues {values : List F32} (laid : layout.Laid)
    (decoded : layout.decodeValues floats ordinal bytes = some (.ok values)) :
    ∃ window, layout.schedule[ordinal]? = some window ∧
      values.length = window.len / (layout.chunk * stateElemBytes) * layout.topk := by
  obtain ⟨span, found, decoded⟩ := Option.bind_eq_some_iff.mp decoded
  obtain ⟨full, listed, built⟩ := Option.bind_eq_some_iff.mp found
  cases built
  split at decoded
  · cases decoded
  rename_i exact_length
  rw [not_not] at exact_length
  have unpacked := Checks.mapError_eq_ok_iff.mp (Option.some.inj decoded)
  have placed := congrArg (fun lens : List Nat => lens[ordinal]?)
    (laid.values (bits_le_of_detAbsmaxUnpack unpacked))
  rw [List.getElem?_map, List.getElem?_map, listed, Option.map_some, eq_comm,
    Option.map_eq_some_iff] at placed
  obtain ⟨window, scheduled, len⟩ := placed
  exact ⟨window, scheduled, length_of_detAbsmaxUnpack unpacked (exact_length.trans len.symm)⟩

/-- Indices that decode are `topk` for each row of their window, each inside its
chunk. -/
theorem spec_of_decodeIndices (decoded : layout.decodeIndices ordinal bytes = some (.ok indices)) :
    ∃ window, layout.schedule[ordinal]? = some window ∧
      indices.length = window.len / (layout.chunk * stateElemBytes) * layout.topk ∧
      ∀ index ∈ indices, index < layout.chunk := by
  obtain ⟨rows, found, decoded⟩ := Option.bind_eq_some_iff.mp decoded
  obtain ⟨window, scheduled, built⟩ := Option.bind_eq_some_iff.mp found
  cases built
  have unpacked := Checks.mapError_eq_ok_iff.mp (Option.some.inj decoded)
  exact ⟨window, scheduled, unpackChunkIndices_spec unpacked⟩

end Decode

end PayloadLayout

end DaemonNode
