import DaemonNode.Profiles.Payload
import Mathlib.Algebra.BigOperators.Ring.List

/-!
# The committed-update container

The bytes of a committed update are encoded from a resident payload, two tensor
sections for each parameter, and read back window by window through the spans of
the layout. The encoder computes in words as the layout does.
-/

namespace DaemonNode

open DetState (stateElemBytes)
open Parts (Tiles)
open Word (Overflow)
open Option (bind_eq_some_iff bind_some bind_eq_bind)

/-- One section of a resident payload. -/
inductive Section (F32 : Type)
  | bytes (data : List Byte)
  | tensor (data : List F32) (shape : List Nat)

/-- The casts `f as u8` and `f as u32`. -/
structure Casts (F32 : Type) where
  toU8 : F32 → Byte
  toU32 : F32 → Nat

def tensorData (sections : List (Section F32)) (idx : Nat) : Except String (List F32) :=
  match sections[idx]? with
  | some (.tensor data _) => .ok data
  | some (.bytes _) => .error ("section " ++ toString idx ++ ": expected Tensor, got Bytes")
  | none => .error ("section " ++ toString idx ++ ": missing")

/-- The packed bytes of their ride in a tensor. -/
def bytesOf (casts : Casts F32) (data : List F32) : List Byte := data.map casts.toU8

/-- The indices of their ride in a tensor. -/
def indicesOf (casts : Casts F32) (data : List F32) : List Nat := data.map casts.toU32

/-- The elements of a range, if it lies inside the list. -/
def getRange (items : List α) (start stop : Nat) : Option (List α) :=
  if start ≤ stop ∧ stop ≤ items.length then some ((items.drop start).take (stop - start))
  else none

/-- The format of the layout. -/
def payloadFormat : Nat := 2

/-- The magic of the header. -/
def payloadMagic : List Byte := labelBytes "VHCP"

namespace PayloadLayout

/-- The fields of the header, the last but one reserved. -/
def headerFields (layout : PayloadLayout) : List (List Byte) :=
  [payloadMagic, toLeBytes 4 payloadFormat, toLeBytes 4 layout.chunk,
    toLeBytes 4 layout.topk, toLeBytes 4 layout.bits, toLeBytes 4 layout.params,
    toLeBytes 4 layout.schedule.length, toLeBytes 4 0, toLeBytes 8 layout.windowSize]

/-- The fixed header. -/
def header (layout : PayloadLayout) : List Byte := layout.headerFields.flatten

theorem length_header (layout : PayloadLayout) : layout.header.length = headerBytes := rfl

/-- The packed rows and the indices of each parameter. -/
def resident (casts : Casts F32) (sections : List (Section F32)) (params : Nat) :
    Except String (List (List Byte × List Nat)) :=
  (List.range params).mapM fun param => do
    let packed ← tensorData sections (2 * param)
    let indices ← tensorData sections (2 * param + 1)
    return (bytesOf casts packed, indicesOf casts indices)

/-- The bytes of one window. A window of a parameter past the last panics. -/
def encodeWindow (mode : Overflow) (layout : PayloadLayout)
    (parts : List (List Byte × List Nat)) (window : Window) :
    Option (Except String (List Byte)) := do
  let stride := absmaxRowBytes layout.topk layout.bits
  let rows ← layout.windowRows window.ordinal
  let row0 := window.paramOff / (layout.chunk * stateElemBytes)
  let (packed, indices) ← parts[window.param]?
  let valuesStart ← mode.mul 64 row0 stride
  let row1 ← mode.add 64 row0 rows
  let valuesStop ← mode.mul 64 row1 stride
  match getRange packed valuesStart valuesStop with
  | none =>
    some (.error ("param " ++ toString window.param ++ ": packed section is short of the layout"))
  | some values => do
    let indicesStart ← mode.mul 64 row0 layout.topk
    let indicesStop ← mode.mul 64 row1 layout.topk
    match getRange indices indicesStart indicesStop with
    | none =>
      some (.error ("param " ++ toString window.param ++ ": index section is short of the layout"))
    | some own => do
      match ← packChunkIndices mode own layout.chunk with
      | .error refusal => some (.error ("pack indices: " ++ refusal.debug))
      | .ok bytes => some (.ok (values ++ bytes))

/-- The bytes of the windows, in order. -/
def encodeWindows (mode : Overflow) (layout : PayloadLayout) (parts : List (List Byte × List Nat)) :
    List Window → Option (Except String (List Byte))
  | [] => some (.ok [])
  | window :: windows => do
    match ← encodeWindow mode layout parts window with
    | .error refusal => some (.error refusal)
    | .ok bytes => do
      match ← encodeWindows mode layout parts windows with
      | .error refusal => some (.error refusal)
      | .ok later => some (.ok (bytes ++ later))

/-- The container of a resident payload. -/
def encodeSections (casts : Casts F32) (mode : Overflow) (layout : PayloadLayout)
    (sections : List (Section F32)) : Option (Except String (List Byte)) :=
  match resident casts sections layout.params with
  | .error refusal => some (.error refusal)
  | .ok parts => do
    match ← encodeWindows mode layout parts layout.schedule with
    | .error refusal => some (.error refusal)
    | .ok body =>
      let out := layout.header ++ body
      if out.length ≠ layout.totalLen then
        some (.error ("encoded container is " ++ toString out.length ++
          " bytes, the layout says " ++ toString layout.totalLen))
      else some (.ok out)

section Rows

variable (casts : Casts F32) (layout : PayloadLayout) (sections : List (Section F32))

def firstRow (window : Window) : Nat :=
  window.paramOff / (layout.chunk * stateElemBytes)

def rowCount (window : Window) : Nat :=
  window.len / (layout.chunk * stateElemBytes)

/-- The packed rows of a window, as the sections have them. -/
def valueRows (window : Window) : List Byte :=
  let stride := absmaxRowBytes layout.topk layout.bits
  match tensorData sections (2 * window.param) with
  | .error _ => []
  | .ok data => ((bytesOf casts data).drop (layout.firstRow window * stride)).take
      (layout.rowCount window * stride)

/-- The indices of a window, as the sections have them. -/
def indexRows (window : Window) : List Nat :=
  match tensorData sections (2 * window.param + 1) with
  | .error _ => []
  | .ok data =>
    ((indicesOf casts data).drop (layout.firstRow window * layout.topk)).take
      (layout.rowCount window * layout.topk)

/-- The sections have all rows of each parameter, with indices into the chunk. -/
def Carries (numels : List Nat) : Prop :=
  ∀ (param numel : Nat), numels[param]? = some numel → ∃ packed indices,
    tensorData sections (2 * param) = .ok packed ∧
    tensorData sections (2 * param + 1) = .ok indices ∧
    numel / layout.chunk * absmaxRowBytes layout.topk layout.bits ≤ packed.length ∧
    numel / layout.chunk * layout.topk ≤ indices.length ∧
    ∀ index ∈ (indicesOf casts indices).take (numel / layout.chunk * layout.topk),
      index < layout.chunk

end Rows

/-- The byte ranges of a window. -/
def pieces (span : Nat × Nat × Nat × Nat) : List (Nat × Nat) :=
  [(span.1, span.1 + span.2.1), (span.2.2.1, span.2.2.1 + span.2.2.2)]

/-- The bytes of a range. -/
def readSpan (container : List Byte) (span : Nat × Nat) : List Byte :=
  (container.drop span.1).take span.2

/-- A range that starts and ends with a part reads it. -/
theorem readSpan_middle (starts : offset = front.length) (ends : length = middle.length) :
    readSpan (front ++ middle ++ back) (offset, length) = middle := by
  rw [readSpan, starts, ends, List.append_assoc]
  simp only [List.drop_left, List.take_left]

/-- The sections of a window placed at a cursor without a word that overflows: its
packed rows, then its packed indices. -/
structure PlacedAt (chunk topk stride width cursor : Nat) (window : Window)
    (span : Nat × Nat × Nat × Nat) (next : Nat) : Prop where
  valuesOff : span.1 = cursor
  valuesLen : span.2.1 = window.len / (chunk * stateElemBytes) * stride
  indicesOff : span.2.2.1 = cursor + span.2.1
  indicesLen : span.2.2.2 = (window.len / (chunk * stateElemBytes) * topk * width + 7) / 8
  next_eq : next = cursor + span.2.1 + span.2.2.2
  next_lt : next < 2 ^ 64
  indices_lt : window.len / (chunk * stateElemBytes) * topk * width < 2 ^ 64

/-- The sections of all windows, one after the other from a cursor to a stop. -/
inductive Placed (chunk topk stride width : Nat) :
    Nat → List Window → List (Nat × Nat × Nat × Nat) → Nat → Prop
  | nil (cursor : Nat) : Placed chunk topk stride width cursor [] [] cursor
  | cons {cursor next stop : Nat} {window : Window} {span : Nat × Nat × Nat × Nat}
      {schedule : List Window} {spans : List (Nat × Nat × Nat × Nat)} :
      PlacedAt chunk topk stride width cursor window span next →
      Placed chunk topk stride width next schedule spans stop →
      Placed chunk topk stride width cursor (window :: schedule) (span :: spans) stop

namespace Placed

variable {chunk topk stride width cursor stop : Nat}
variable {schedule : List Window} {spans : List (Nat × Nat × Nat × Nat)}

section

variable (placed : Placed chunk topk stride width cursor schedule spans stop)

include placed

/-- The sections tile the bytes from the cursor to the end. -/
theorem tiles : Tiles cursor (spans.flatMap pieces) stop := by
  induction placed with
  | nil cursor => exact .nil cursor
  | cons own _ ih =>
    rw [own.next_eq, ← own.indicesOff] at ih
    rw [List.flatMap_cons, pieces, own.valuesOff, ← own.indicesOff]
    apply Tiles.cons
    · exact own.indicesOff ▸ Nat.le_add_right _ _
    · exact .cons (Nat.le_add_right _ _) ih

theorem stop_lt (fits : cursor < 2 ^ 64) : stop < 2 ^ 64 := by
  induction placed with
  | nil cursor => exact fits
  | cons own _ ih => exact ih own.next_lt

/-- The packed rows of all windows lie before the end. -/
theorem sum_values_le :
    cursor + (schedule.map fun window =>
      window.len / (chunk * stateElemBytes) * stride).sum ≤ stop := by
  induction placed with
  | nil cursor => exact le_rfl
  | cons own _ ih =>
    have next := own.next_eq
    rw [List.map_cons, List.sum_cons, ← own.valuesLen]
    omega

/-- The packed rows of the windows, in their order. -/
theorem values :
    spans.map (fun span => span.2.1) =
      schedule.map fun window => window.len / (chunk * stateElemBytes) * stride := by
  induction placed with
  | nil => rfl
  | cons own _ ih => rw [List.map_cons, List.map_cons, own.valuesLen, ih]

/-- The packed indices of a window fit a word. -/
theorem indices_lt (member : window ∈ schedule) :
    window.len / (chunk * stateElemBytes) * topk * width < 2 ^ 64 := by
  induction placed with
  | nil => simp at member
  | cons own _ ih =>
    rcases List.mem_cons.mp member with rfl | later
    · exact own.indices_lt
    · exact ih later

/-- The blocks of a container are read back by its spans. -/
theorem readSpan_eq {blocks : List (List Byte × List Byte)} (started : front.length = cursor)
    (each : List.Forall₂ (fun window block =>
      block.1.length = window.len / (chunk * stateElemBytes) * stride ∧
        block.2.length = (window.len / (chunk * stateElemBytes) * topk * width + 7) / 8)
      schedule blocks) :
    (front ++ blocks.flatMap fun block => block.1 ++ block.2).length = stop ∧
      List.Forall₂ (fun span block =>
        readSpan (front ++ blocks.flatMap fun block => block.1 ++ block.2)
            (span.1, span.2.1) = block.1 ∧
          readSpan (front ++ blocks.flatMap fun block => block.1 ++ block.2)
            (span.2.2.1, span.2.2.2) = block.2) spans blocks := by
  induction placed generalizing front blocks with
  | nil cursor =>
    cases each
    exact ⟨by simpa using started, .nil⟩
  | @cons cursor next _ _ _ _ _ own _ ih =>
    cases each with
    | @cons _ block _ blocks first later =>
      have valuesLength := own.valuesLen.trans first.1.symm
      have indicesLength := own.indicesLen.trans first.2.symm
      have advanced : (front ++ (block.1 ++ block.2)).length = next := by
        rw [List.length_append, List.length_append, started, ← valuesLength,
          ← indicesLength, ← Nat.add_assoc, ← own.next_eq]
      have rest := ih advanced later
      rw [List.flatMap_cons, ← List.append_assoc]
      refine ⟨rest.1, .cons ⟨?_, ?_⟩ rest.2⟩
      · rw [← List.append_assoc, List.append_assoc (front ++ block.1)]
        exact readSpan_middle (own.valuesOff.trans started.symm) valuesLength
      · rw [← List.append_assoc]
        refine readSpan_middle ?_ indicesLength
        rw [List.length_append, started, ← valuesLength, own.indicesOff]

end

end Placed

section Accepted

variable {numels : List Nat} {windowSize : Nat}
variable {width cursor : Nat}

/-- The sections of a window that are placed without an overflow are placed so by
every build. -/
theorem sectionSpan_of_trap (wide : indexBits cfg.chunk = .ok width)
    (computed : sectionSpan .trap cfg cursor window = some (.ok (span, next))) :
    PlacedAt cfg.chunk cfg.topk (absmaxRowBytes cfg.topk cfg.bits) width cursor window span next ∧
      ∀ mode, sectionSpan mode cfg cursor window = some (.ok (span, next)) := by
  unfold sectionSpan at computed ⊢
  obtain ⟨valuesLen, multiplied, computed⟩ := bind_eq_some_iff.mp computed
  obtain ⟨count, counted, computed⟩ := bind_eq_some_iff.mp computed
  obtain ⟨packedLen, packed, computed⟩ := bind_eq_some_iff.mp computed
  simp only [packedIndexLenIn, wide] at packed
  obtain ⟨length, product, built⟩ := bind_eq_some_iff.mp packed
  cases built
  obtain ⟨indicesOff, offset, computed⟩ := bind_eq_some_iff.mp computed
  obtain ⟨both, summed, computed⟩ := bind_eq_some_iff.mp computed
  obtain ⟨next, advanced, computed⟩ := bind_eq_some_iff.mp computed
  cases computed
  constructor
  · obtain ⟨_, rfl⟩ := Overflow.trap_mul_eq_some_iff.mp multiplied
    obtain ⟨_, rfl⟩ := Overflow.trap_mul_eq_some_iff.mp counted
    obtain ⟨productFits, rfl⟩ := Overflow.trap_mul_eq_some_iff.mp product
    obtain ⟨_, rfl⟩ := Overflow.trap_add_eq_some_iff.mp offset
    obtain ⟨_, rfl⟩ := Overflow.trap_add_eq_some_iff.mp summed
    obtain ⟨nextFits, rfl⟩ := Overflow.trap_add_eq_some_iff.mp advanced
    exact ⟨rfl, rfl, rfl, rfl, (Nat.add_assoc _ _ _).symm, nextFits, productFits⟩
  · intro mode
    simp only [packedIndexLenIn, wide, bind_eq_bind, bind_some,
      mode.mul_of_trap multiplied, mode.mul_of_trap counted, mode.mul_of_trap product,
      mode.add_of_trap offset, mode.add_of_trap summed, mode.add_of_trap advanced]

/-- Spans that are computed without an overflow are placed, and are those of every
build. -/
theorem sectionSpans_of_trap {schedule : List Window} {spans : List (Nat × Nat × Nat × Nat)}
    (wide : indexBits cfg.chunk = .ok width)
    (computed : sectionSpans .trap cfg cursor schedule = some (.ok (spans, stop))) :
    Placed cfg.chunk cfg.topk (absmaxRowBytes cfg.topk cfg.bits) width cursor schedule spans stop ∧
      ∀ mode, sectionSpans mode cfg cursor schedule = some (.ok (spans, stop)) := by
  induction schedule generalizing cursor spans stop with
  | nil =>
    cases computed
    exact ⟨.nil cursor, fun _ => rfl⟩
  | cons window schedule ih =>
    obtain ⟨_ | first, firstSpan, computed⟩ := bind_eq_some_iff.mp computed
    · cases computed
    obtain ⟨_ | rest, restSpans, computed⟩ := bind_eq_some_iff.mp computed
    · cases computed
    cases computed
    obtain ⟨own, everyFirst⟩ := sectionSpan_of_trap wide firstSpan
    obtain ⟨later, everyRest⟩ := ih restSpans
    refine ⟨.cons own later, ?_⟩
    intro mode
    rw [sectionSpans, everyFirst mode]
    simp only [bind_eq_bind, bind_some, everyRest mode]

/-- What a layout that is computed without an overflow keeps. -/
structure Accepted (layout : PayloadLayout) (numels : List Nat) (width : Nat) : Prop where
  laid : layout.Laid
  wide : indexBits layout.chunk = .ok width
  topk_le : layout.topk ≤ layout.chunk
  size_pos : 0 < layout.windowSize
  params_eq : layout.params = numels.length
  schedule_eq : layout.schedule = enumerate layout.windowSize 0 0 numels
  numels_aligned : ∀ numel ∈ numels, layout.chunk ∣ numel
  numels_lt : ∀ numel ∈ numels, numel * stateElemBytes < 2 ^ 64
  placed : Placed layout.chunk layout.topk (absmaxRowBytes layout.topk layout.bits) width
    headerBytes layout.schedule layout.spans layout.totalLen

/-- A layout that is computed without an overflow is that of every build. -/
theorem accepted_of_new (built : new .trap cfg numels windowSize = some (.ok layout)) :
    (∃ width, Accepted layout numels width) ∧
      ∀ mode, new mode cfg numels windowSize = some (.ok layout) := by
  unfold new at *
  cases checked : checkLayout cfg numels windowSize with
  | error refusal =>
    rw [checked] at built
    cases built
  | ok _ =>
    simp only [checked] at built ⊢
    have ruled := ruled_of_checkLayout checked
    obtain ⟨width, wide⟩ : ∃ width, indexBits cfg.chunk = .ok width := by
      rw [indexBits, if_neg ruled.chunk_pos.ne']
      exact ⟨_, rfl⟩
    obtain ⟨schedule, returned, built⟩ := bind_eq_some_iff.mp built
    obtain ⟨_ | sections, computed, built⟩ := bind_eq_some_iff.mp built
    · cases built
    cases built
    obtain ⟨placed, every⟩ := sectionSpans_of_trap wide computed
    refine ⟨⟨width, ?_⟩, ?_⟩
    · obtain ⟨_, rfl, fits⟩ := windows_of_trap .trap ruled.size_pos returned
      exact ⟨laid_of_enumerate ruled fun _ => placed.values, wide, ruled.topk_le,
        ruled.size_pos, rfl, rfl, ruled.numels_aligned, fits, placed⟩
    · intro mode
      rw [(windows_of_trap mode ruled.size_pos returned).1]
      simp only [bind_eq_bind, bind_some, every mode]

end Accepted

section Encoding

variable {layout : PayloadLayout} {width : Nat} {window : Window}

section

variable (accepted : Accepted layout numels width)

include accepted

theorem Accepted.schedule_ordinal (member : window ∈ layout.schedule) :
    layout.schedule[window.ordinal]? = some window := by
  obtain ⟨position, found⟩ := List.mem_iff_getElem?.mp member
  have ordinals := congrArg (fun ordinals : List Nat => ordinals[position]?) accepted.laid.ordinals
  have inside := (List.getElem?_eq_some_iff.mp found).1
  simp only [List.getElem?_map, found, Option.map_some, List.getElem?_range inside,
    Option.some.injEq] at ordinals
  rwa [ordinals]

theorem Accepted.rows_le (member : window ∈ layout.schedule) :
    ∃ numel, numels[window.param]? = some numel ∧
      layout.firstRow window + layout.rowCount window ≤ numel / layout.chunk := by
  have inside := accepted.laid.params window member
  rw [accepted.params_eq] at inside
  refine ⟨numels.get ⟨window.param, inside⟩, List.getElem?_eq_getElem inside, ?_⟩
  have tiled := enumerate_tiles 0 0 accepted.size_pos (List.getElem?_eq_getElem inside)
  rw [← accepted.schedule_eq] at tiled
  have bounds := tiled.bounds_of_mem (List.mem_map_of_mem (f := Window.span)
    (List.mem_filter.mpr ⟨member, by simp⟩))
  calc layout.firstRow window + layout.rowCount window
      ≤ (window.paramOff + window.len) / (layout.chunk * stateElemBytes) :=
        Nat.div_add_div_le_add_div
    _ ≤ numels[window.param] * stateElemBytes / (layout.chunk * stateElemBytes) :=
        Nat.div_le_div_right bounds.2.2
    _ = numels[window.param] / layout.chunk := Nat.mul_div_mul_right _ _ (by decide)

/-- The packed rows of a parameter fit a word. -/
theorem Accepted.rows_lt {param numel : Nat} (found : numels[param]? = some numel) :
    numel / layout.chunk * absmaxRowBytes layout.topk layout.bits < 2 ^ 64 := by
  have tiled := enumerate_tiles 0 0 accepted.size_pos found
  rw [← accepted.schedule_eq] at tiled
  have aligned : ∀ piece ∈ (layout.schedule.filter fun window =>
      window.param = 0 + param).map Window.span,
      layout.chunk * stateElemBytes ∣ piece.2 - piece.1 := by
    intro piece member
    obtain ⟨window, listed, rfl⟩ := List.mem_map.mp member
    rw [Window.span, Nat.add_sub_cancel_left]
    exact accepted.laid.aligned window (List.mem_filter.mp listed).1
  have units := tiled.sum_units aligned
  rw [List.map_map, Nat.sub_zero, Nat.mul_div_mul_right _ _ (show 0 < stateElemBytes by decide)]
    at units
  have below := accepted.placed.stop_lt (by decide)
  have whole := accepted.placed.sum_values_le
  calc numel / layout.chunk * absmaxRowBytes layout.topk layout.bits
      = ((layout.schedule.filter fun window => window.param = 0 + param).map fun window =>
          window.len / (layout.chunk * stateElemBytes) *
            absmaxRowBytes layout.topk layout.bits).sum := by
        rw [← units, ← List.sum_map_mul_right]
        simp only [Function.comp_apply, Window.span, Nat.add_sub_cancel_left]
    _ ≤ (layout.schedule.map fun window =>
          window.len / (layout.chunk * stateElemBytes) *
            absmaxRowBytes layout.topk layout.bits).sum :=
        (List.filter_sublist.map _).sum_le_sum fun _ _ => Nat.zero_le _
    _ ≤ layout.totalLen := by omega
    _ < 2 ^ 64 := below

theorem Accepted.indices_lt {param numel : Nat} (found : numels[param]? = some numel) :
    numel / layout.chunk * layout.topk < 2 ^ 64 := by
  have fits := accepted.numels_lt numel (List.mem_of_getElem? found)
  calc numel / layout.chunk * layout.topk
      ≤ numel / layout.chunk * layout.chunk := Nat.mul_le_mul_left _ accepted.topk_le
    _ ≤ numel := Nat.div_mul_le_self _ _
    _ ≤ numel * stateElemBytes := Nat.le_mul_of_pos_right _ (by decide)
    _ < 2 ^ 64 := fits

theorem Accepted.row_products (mode : Overflow) (member : window ∈ layout.schedule) :
    let stride := absmaxRowBytes layout.topk layout.bits
    let row0 := layout.firstRow window
    let rows := layout.rowCount window
    mode.add 64 row0 rows = some (row0 + rows) ∧
      mode.mul 64 row0 stride = some (row0 * stride) ∧
      mode.mul 64 (row0 + rows) stride = some ((row0 + rows) * stride) ∧
      mode.mul 64 row0 layout.topk = some (row0 * layout.topk) ∧
      mode.mul 64 (row0 + rows) layout.topk = some ((row0 + rows) * layout.topk) := by
  obtain ⟨numel, listed, inside⟩ := accepted.rows_le member
  have start := Nat.le_add_right (layout.firstRow window) (layout.rowCount window)
  have values := (Nat.mul_le_mul_right (absmaxRowBytes layout.topk layout.bits)
    inside).trans_lt (accepted.rows_lt listed)
  have indices := (Nat.mul_le_mul_right layout.topk inside).trans_lt (accepted.indices_lt listed)
  have positive : 0 < absmaxRowBytes layout.topk layout.bits := by
    unfold absmaxRowBytes
    omega
  refine ⟨mode.add_of_lt ?_, mode.mul_of_lt ?_, mode.mul_of_lt values, mode.mul_of_lt ?_,
    mode.mul_of_lt indices⟩
  · exact (Nat.le_mul_of_pos_right _ positive).trans_lt values
  · exact (Nat.mul_le_mul_right _ start).trans_lt values
  · exact (Nat.mul_le_mul_right _ start).trans_lt indices

end

theorem getRange_eq_some_iff :
    getRange items start stop = some range ↔
      start ≤ stop ∧ stop ≤ items.length ∧ range = (items.drop start).take (stop - start) := by
  unfold getRange
  split
  · rename_i inside
    simp [inside, eq_comm]
  · rename_i outside
    simp only [reduceCtorEq, false_iff]
    rintro ⟨ordered, short, _⟩
    exact outside ⟨ordered, short⟩

theorem getRange_rows :
    getRange items (row0 * stride) ((row0 + rows) * stride) = some range ↔
      (row0 + rows) * stride ≤ items.length ∧
        range = (items.drop (row0 * stride)).take (rows * stride) := by
  rw [getRange_eq_some_iff, Nat.add_mul, Nat.add_sub_cancel_left]
  constructor
  · rintro ⟨_, short, taken⟩
    exact ⟨short, taken⟩
  · rintro ⟨short, taken⟩
    exact ⟨Nat.le_add_right _ _, short, taken⟩

/-- The bytes of a window: its rows, found inside the sections of its parameter,
and its indices, packed. -/
theorem Accepted.encodeWindow_eq_some_iff (accepted : Accepted layout numels width)
    (mode : Overflow) (member : window ∈ layout.schedule)
    (found : parts[window.param]? = some (packed, indices)) :
    encodeWindow mode layout parts window = some (.ok bytes) ↔
      ∃ values own tail,
        getRange packed
          (layout.firstRow window * absmaxRowBytes layout.topk layout.bits)
          ((layout.firstRow window + layout.rowCount window) *
            absmaxRowBytes layout.topk layout.bits) = some values ∧
        getRange indices (layout.firstRow window * layout.topk)
          ((layout.firstRow window + layout.rowCount window) * layout.topk) = some own ∧
        packChunkIndices mode own layout.chunk = some (.ok tail) ∧
        bytes = values ++ tail := by
  have rows : layout.windowRows window.ordinal = some (layout.rowCount window) := by
    rw [windowRows, accepted.schedule_ordinal member]
    rfl
  obtain ⟨row1, valuesStart, valuesStop, indicesStart, indicesStop⟩ :=
    accepted.row_products mode member
  unfold encodeWindow
  simp only [rows, found, bind_eq_bind, bind_some]
  rw [show window.paramOff / (layout.chunk * stateElemBytes) = layout.firstRow window
    from rfl, valuesStart, row1]
  simp only [bind_some, valuesStop, indicesStart, indicesStop]
  cases getRange packed _ _ with
  | none => simp
  | some values =>
    cases getRange indices _ _ with
    | none => simp
    | some own =>
      cases packs : packChunkIndices mode own layout.chunk with
      | none => simp [packs]
      | some outcome =>
        cases outcome with
        | error refusal => simp [packs]
        | ok tail => simp [packs, eq_comm]

theorem parts_of_resident {params param : Nat}
    (gathered : resident casts sections params = .ok parts) (inside : param < params) :
    ∃ packed indices, tensorData sections (2 * param) = .ok packed ∧
      tensorData sections (2 * param + 1) = .ok indices ∧
      parts[param]? = some (bytesOf casts packed, indicesOf casts indices) := by
  have each := Lists.forall₂_of_mapM_ok gathered
  obtain ⟨part, found, read⟩ := Lists.exists_getElem?_of_forall₂ each (List.getElem?_range inside)
  obtain ⟨packed, first, read⟩ := Checks.bind_eq_ok_iff.mp read
  obtain ⟨indices, second, built⟩ := Checks.bind_eq_ok_iff.mp read
  cases built
  exact ⟨packed, indices, first, second, found⟩

theorem resident_ok (casts : Casts F32) {params : Nat}
    (present : ∀ param < params, ∃ packed indices,
      tensorData sections (2 * param) = .ok packed ∧
        tensorData sections (2 * param + 1) = .ok indices) :
    ∃ parts, resident casts sections params = .ok parts := by
  have each : ∀ param ∈ List.range params, ∃ part, (do
      let packed ← tensorData sections (2 * param)
      let indices ← tensorData sections (2 * param + 1)
      return (bytesOf casts packed, indicesOf casts indices) : Except String _) = .ok part := by
    intro param member
    obtain ⟨packed, indices, first, second⟩ := present param (List.mem_range.mp member)
    rw [first, second]
    exact ⟨_, rfl⟩
  obtain ⟨parts, related⟩ := Lists.exists_forall₂ each
  exact ⟨parts, Lists.mapM_ok_of_forall₂ related⟩

/-- A window's block: its rows, and bytes that unpack to its indices. -/
structure Block (casts : Casts F32) (layout : PayloadLayout) (sections : List (Section F32))
    (width : Nat) (window : Window) (block : List Byte × List Byte) : Prop where
  values : block.1 = layout.valueRows casts sections window
  valuesLen : block.1.length = layout.rowCount window * absmaxRowBytes layout.topk layout.bits
  indicesLen : block.2.length = (layout.rowCount window * layout.topk * width + 7) / 8
  unpacks : unpackChunkIndices block.2 layout.chunk (layout.rowCount window * layout.topk) =
    .ok (layout.indexRows casts sections window)

theorem Accepted.block_of_encodeWindow (accepted : Accepted layout numels width)
    (gathered : resident casts sections layout.params = .ok parts)
    (member : window ∈ layout.schedule) {bytes : List Byte}
    (encoded : encodeWindow mode layout parts window = some (.ok bytes)) :
    ∃ block, Block casts layout sections width window block ∧ bytes = block.1 ++ block.2 := by
  obtain ⟨packed, indices, readPacked, readIndices, found⟩ :=
    parts_of_resident gathered (accepted.laid.params window member)
  obtain ⟨values, own, tail, ranged, indexRange, packs, rfl⟩ :=
    (accepted.encodeWindow_eq_some_iff mode member found).mp encoded
  obtain ⟨valuesShort, valuesEq⟩ := getRange_rows.mp ranged
  obtain ⟨indicesShort, ownEq⟩ := getRange_rows.mp indexRange
  have ownLength : own.length = layout.rowCount window * layout.topk := by
    rw [Nat.add_mul] at indicesShort
    rw [ownEq, List.length_take, List.length_drop]
    omega
  have fits := accepted.placed.indices_lt member
  have inside : ∀ index ∈ own, index < layout.chunk := by
    unfold packChunkIndices at packs
    split at packs
    · cases packs
    · obtain ⟨_ | length, _, packs⟩ := Option.bind_eq_some_iff.mp packs
      · cases packs
      · exact lt_of_mem_packFrom packs
  obtain ⟨packed', packs', length, unpacks, -⟩ := packChunkIndices_roundTrip mode accepted.wide
    inside (ownLength ▸ fits)
  cases packs.symm.trans packs'
  rw [packedIndexLen, accepted.wide, ownLength] at length
  have valuesOf : layout.valueRows casts sections window = values := by
    simp only [valueRows, readPacked, valuesEq]
  have indicesOf : layout.indexRows casts sections window = own := by
    simp only [indexRows, readIndices, ownEq]
  refine ⟨(values, tail), ⟨valuesOf.symm, ?_, (Except.ok.inj length).symm, ?_⟩, rfl⟩
  · rw [Nat.add_mul] at valuesShort
    rw [valuesEq, List.length_take, List.length_drop]
    omega
  · rw [indicesOf, ← ownLength]
    exact unpacks

theorem blocks_of_encodeWindows {block : Window → List Byte × List Byte → Prop}
    {schedule : List Window}
    (each : ∀ window ∈ schedule, ∀ bytes,
      encodeWindow mode layout parts window = some (.ok bytes) →
        ∃ pair, block window pair ∧ bytes = pair.1 ++ pair.2)
    (encoded : encodeWindows mode layout parts schedule = some (.ok body)) :
    ∃ blocks, List.Forall₂ block schedule blocks ∧
      body = blocks.flatMap fun pair => pair.1 ++ pair.2 := by
  induction schedule generalizing body with
  | nil =>
    cases encoded
    exact ⟨[], .nil, rfl⟩
  | cons window schedule ih =>
    obtain ⟨_ | bytes, firstEncoded, encoded⟩ := bind_eq_some_iff.mp encoded
    · cases encoded
    obtain ⟨_ | later, restEncoded, encoded⟩ := bind_eq_some_iff.mp encoded
    · cases encoded
    cases encoded
    obtain ⟨own, others⟩ := List.forall_mem_cons.mp each
    obtain ⟨pair, blocked, rfl⟩ := own bytes firstEncoded
    obtain ⟨blocks, related, rfl⟩ := ih others restEncoded
    exact ⟨pair :: blocks, .cons blocked related, rfl⟩

theorem encodeWindows_ok {schedule : List Window}
    (each : ∀ window ∈ schedule, ∃ bytes,
      encodeWindow mode layout parts window = some (.ok bytes)) :
    ∃ body, encodeWindows mode layout parts schedule = some (.ok body) := by
  induction schedule with
  | nil => exact ⟨[], rfl⟩
  | cons window schedule ih =>
    obtain ⟨⟨bytes, own⟩, others⟩ := List.forall_mem_cons.mp each
    obtain ⟨later, rest⟩ := ih others
    refine ⟨bytes ++ later, ?_⟩
    rw [encodeWindows, own]
    simp only [bind_eq_bind, bind_some, rest]

section

variable (accepted : Accepted layout numels width)

include accepted

/-- A container of blocks has the length of the layout, and its spans read the
blocks. -/
theorem Accepted.readSpan_blocks
    (each : List.Forall₂ (Block casts layout sections width) layout.schedule blocks) :
    (layout.header ++ blocks.flatMap fun pair => pair.1 ++ pair.2).length = layout.totalLen ∧
      List.Forall₂ (fun span block =>
        readSpan (layout.header ++ blocks.flatMap fun pair => pair.1 ++ pair.2)
            (span.1, span.2.1) = block.1 ∧
          readSpan (layout.header ++ blocks.flatMap fun pair => pair.1 ++ pair.2)
            (span.2.2.1, span.2.2.2) = block.2) layout.spans blocks := by
  apply accepted.placed.readSpan_eq (length_header layout)
  exact each.imp fun _ _ block => ⟨block.valuesLen, block.indicesLen⟩

/-- A container that is encoded is the header and the blocks of the windows. -/
theorem Accepted.blocks_of_encodeSections
    (encoded : encodeSections casts mode layout sections = some (.ok container)) :
    container.length = layout.totalLen ∧ ∃ blocks,
      List.Forall₂ (Block casts layout sections width) layout.schedule blocks ∧
      container = layout.header ++ blocks.flatMap fun pair => pair.1 ++ pair.2 := by
  unfold encodeSections at encoded
  cases gathered : resident casts sections layout.params with
  | error refusal =>
    rw [gathered] at encoded
    cases encoded
  | ok parts =>
    rw [gathered] at encoded
    obtain ⟨_ | bytes, body, encoded⟩ := bind_eq_some_iff.mp encoded
    · cases encoded
    dsimp only at encoded
    split at encoded
    · cases encoded
    rename_i length
    cases encoded
    obtain ⟨blocks, each, rfl⟩ := blocks_of_encodeWindows
      (fun window member bytes => accepted.block_of_encodeWindow gathered member) body
    exact ⟨not_not.mp length, blocks, each, rfl⟩

theorem Accepted.encodeWindow_of_carries (mode : Overflow)
    (carries : Carries casts layout sections numels)
    (gathered : resident casts sections layout.params = .ok parts)
    (member : window ∈ layout.schedule) :
    ∃ bytes, encodeWindow mode layout parts window = some (.ok bytes) := by
  obtain ⟨numel, listed, inside⟩ := accepted.rows_le member
  obtain ⟨packed, indices, readPacked, readIndices, packedLong, indicesLong, low⟩ :=
    carries window.param numel listed
  obtain ⟨packed', indices', readPacked', readIndices', found⟩ :=
    parts_of_resident gathered (accepted.laid.params window member)
  cases readPacked.symm.trans readPacked'
  cases readIndices.symm.trans readIndices'
  have valuesInside := (Nat.mul_le_mul_right (absmaxRowBytes layout.topk layout.bits)
    inside).trans packedLong
  have indicesInside := Nat.mul_le_mul_right layout.topk inside
  have ownLow : ∀ index ∈ ((indicesOf casts indices).drop
      (layout.firstRow window * layout.topk)).take (layout.rowCount window * layout.topk),
      index < layout.chunk := by
    intro index own
    apply low
    rw [List.take_drop, ← Nat.add_mul] at own
    exact (List.take_subset_take_left _ indicesInside) (List.mem_of_mem_drop own)
  have ranged := getRange_rows.mpr
    ⟨show _ ≤ (bytesOf casts packed).length by rwa [bytesOf, List.length_map], rfl⟩
  have indexRange := getRange_rows.mpr
    ⟨show _ ≤ (indicesOf casts indices).length by
      rw [indicesOf, List.length_map]
      exact indicesInside.trans indicesLong, rfl⟩
  have ownShort : (((indicesOf casts indices).drop
      (layout.firstRow window * layout.topk)).take
        (layout.rowCount window * layout.topk)).length * width < 2 ^ 64 :=
    (Nat.mul_le_mul_right width (List.length_take_le _ _)).trans_lt
      (accepted.placed.indices_lt member)
  obtain ⟨tail, packs, _⟩ := packChunkIndices_roundTrip mode accepted.wide ownLow ownShort
  exact ⟨_, (accepted.encodeWindow_eq_some_iff mode member found).mpr
    ⟨_, _, tail, ranged, indexRange, packs, rfl⟩⟩

theorem Accepted.encodeSections_of_carries (mode : Overflow)
    (carries : Carries casts layout sections numels) :
    ∃ container, encodeSections casts mode layout sections = some (.ok container) := by
  have present : ∀ param < layout.params, ∃ packed indices,
      tensorData sections (2 * param) = .ok packed ∧
        tensorData sections (2 * param + 1) = .ok indices := by
    intro param inside
    rw [accepted.params_eq] at inside
    obtain ⟨packed, indices, first, second, _⟩ := carries param _ (List.getElem?_eq_getElem inside)
    exact ⟨packed, indices, first, second⟩
  obtain ⟨parts, gathered⟩ := resident_ok casts present
  obtain ⟨body, encoded⟩ := encodeWindows_ok fun window member =>
    accepted.encodeWindow_of_carries mode carries gathered member
  obtain ⟨blocks, each, rfl⟩ := blocks_of_encodeWindows
    (fun window member bytes => accepted.block_of_encodeWindow gathered member) encoded
  refine ⟨layout.header ++ blocks.flatMap fun pair => pair.1 ++ pair.2, ?_⟩
  unfold encodeSections
  simp only [gathered, encoded, bind_eq_bind, bind_some]
  rw [if_neg (not_not_intro (accepted.readSpan_blocks each).1)]

theorem Accepted.span_of_encodeSections
    (encoded : encodeSections casts mode layout sections = some (.ok container))
    (member : window ∈ layout.schedule) :
    ∃ span block, layout.spans[window.ordinal]? = some span ∧
      Block casts layout sections width window block ∧ span.2.1 = block.1.length ∧
      readSpan container (span.1, span.2.1) = block.1 ∧
      readSpan container (span.2.2.1, span.2.2.2) = block.2 := by
  obtain ⟨_, blocks, each, rfl⟩ := accepted.blocks_of_encodeSections encoded
  have scheduled := accepted.schedule_ordinal member
  obtain ⟨block, listed, own⟩ := Lists.exists_getElem?_of_forall₂ each scheduled
  obtain ⟨span, placed, reads⟩ := Lists.exists_getElem?_of_forall₂
    (accepted.readSpan_blocks each).2.flip listed
  have lens := congrArg (fun lens : List Nat => lens[window.ordinal]?) accepted.placed.values
  simp only [List.getElem?_map, placed, scheduled, Option.map_some, Option.some.injEq] at lens
  exact ⟨span, block, placed, own, lens.trans own.valuesLen.symm, reads⟩

end

end Encoding

/-- The container of a layout that is computed without an overflow. Every build
computes the layout. The header and the spans tile the container. Sections that
carry the layout are encoded, and what is encoded is read back by the spans: the
packed rows of each window, which pass the length check of the decoder, and its
indices. -/
theorem container_tiles_and_round_trips {cfg : SparseLocoCfg F64} {numels : List Nat}
    {windowSize : Nat} {layout : PayloadLayout}
    (built : new .trap cfg numels windowSize = some (.ok layout)) :
    (∀ mode, new mode cfg numels windowSize = some (.ok layout)) ∧
      layout.spans.length = layout.schedule.length ∧
      Tiles 0 ((0, headerBytes) :: layout.spans.flatMap pieces) layout.totalLen ∧
      ∀ (F32 : Type) (casts : Casts F32) (mode : Overflow) (sections : List (Section F32)),
        (Carries casts layout sections numels → ∃ container,
          encodeSections casts mode layout sections = some (.ok container)) ∧
        ∀ container, encodeSections casts mode layout sections = some (.ok container) →
          container.length = layout.totalLen ∧
          container.take headerBytes = layout.header ∧
          ∀ window ∈ layout.schedule, ∃ valuesSpan indicesSpan,
            layout.valuesSpan window.ordinal = some valuesSpan ∧
            layout.indicesSpan window.ordinal = some indicesSpan ∧
            valuesSpan.2 = layout.rowCount window * absmaxRowBytes layout.topk layout.bits ∧
            readSpan container valuesSpan = layout.valueRows casts sections window ∧
            (∀ (F64 : Type) (floats : Floats F32 F64),
              layout.decodeValues floats window.ordinal (readSpan container valuesSpan) =
                some ((detAbsmaxUnpack floats (layout.valueRows casts sections window)
                  layout.topk layout.bits).mapError fun refusal =>
                    "window " ++ toString window.ordinal ++ " values: " ++ refusal.debug)) ∧
            layout.decodeIndices window.ordinal (readSpan container indicesSpan) =
              some (.ok (layout.indexRows casts sections window)) := by
  obtain ⟨⟨width, accepted⟩, every⟩ := accepted_of_new built
  refine ⟨every, by simpa using congrArg List.length accepted.placed.values, ?_, ?_⟩
  · exact .cons (Nat.zero_le _) accepted.placed.tiles
  · intro F32 casts mode sections
    refine ⟨accepted.encodeSections_of_carries mode, ?_⟩
    intro container encoded
    refine ⟨(accepted.blocks_of_encodeSections encoded).1, ?_, ?_⟩
    · obtain ⟨_, blocks, _, rfl⟩ := accepted.blocks_of_encodeSections encoded
      rw [← length_header layout, List.take_left]
    · intro window member
      obtain ⟨span, block, placed, own, length, values, indices⟩ :=
        accepted.span_of_encodeSections encoded member
      have spanned : layout.valuesSpan window.ordinal = some (span.1, span.2.1) := by
        rw [valuesSpan, placed]
        rfl
      refine ⟨(span.1, span.2.1), (span.2.2.1, span.2.2.2), spanned, ?_,
        length.trans own.valuesLen, values.trans own.values, ?_, ?_⟩
      · rw [indicesSpan, placed]
        rfl
      · intro F64 floats
        rw [decodeValues, spanned, values, ← own.values]
        simp only [bind_eq_bind, bind_some]
        rw [if_neg (not_not_intro length.symm)]
      · rw [decodeIndices, windowRows, accepted.schedule_ordinal member, indices]
        exact congrArg some (congrArg (Except.mapError _) own.unpacks)

/-- The layout of one parameter of four elements, in two windows of one row. -/
def twoWindows : PayloadLayout :=
  { chunk := 2
    topk := 1
    bits := 2
    windowSize := 8
    params := 1
    schedule := [⟨0, 0, 0, 8⟩, ⟨1, 0, 8, 8⟩]
    spans := [(40, 3, 43, 1), (44, 3, 47, 1)]
    totalLen := 48 }

/-- Whole numbers in the place of floats. -/
def wholeCasts : Casts Nat := ⟨Fin.ofNat 256, id⟩

/-- Two packed rows of three bytes, and an index for each. -/
def twoRows : List (Section Nat) :=
  [.tensor [1, 2, 3, 4, 5, 6] [6], .tensor [1, 0] [2]]

theorem twoRows_carries : Carries wholeCasts twoWindows twoRows [4] := by
  intro param numel listed
  obtain ⟨inside, found⟩ := List.getElem?_eq_some_iff.mp listed
  obtain rfl : param = 0 := Nat.lt_one_iff.mp inside
  obtain rfl : 4 = numel := found
  exact ⟨[1, 2, 3, 4, 5, 6], [1, 0], rfl, rfl, by decide, by decide, by decide⟩

theorem twoWindows_round_trip :
    new .trap (⟨2, 1, 2, (), true⟩ : SparseLocoCfg Unit) [4] 8 = some (.ok twoWindows) ∧
      Tiles 0 [(0, 40), (40, 43), (43, 44), (44, 47), (47, 48)] 48 ∧
      ∃ container,
        encodeSections wholeCasts .trap twoWindows twoRows = some (.ok container) ∧
          container.length = 48 ∧
          readSpan container (44, 3) = [4, 5, 6] ∧
          twoWindows.decodeIndices 1 (readSpan container (47, 1)) = some (.ok [0]) := by
  have built : new .trap (⟨2, 1, 2, (), true⟩ : SparseLocoCfg Unit) [4] 8 =
      some (.ok twoWindows) := by decide +kernel
  obtain ⟨_, _, tiles, trips⟩ := container_tiles_and_round_trips built
  obtain ⟨encodes, reads⟩ := trips Nat wholeCasts .trap twoRows
  obtain ⟨container, encoded⟩ := encodes twoRows_carries
  obtain ⟨length, _, windows⟩ := reads container encoded
  obtain ⟨values, indices, valuesAt, indicesAt, _, rows, _, decoded⟩ :=
    windows ⟨1, 0, 8, 8⟩ (by decide)
  cases valuesAt
  cases indicesAt
  exact ⟨built, tiles, container, encoded, length, rows, decoded⟩

/-- A release build accepts a geometry whose offsets wrap: `5 * 3689348814741910323`
bytes of values end at `2 ^ 64 - 1 + 40`. The spans do not tile the container. -/
theorem wrapped_spans_overlap :
    ∃ layout,
      new .wrap (⟨1, 1, 24, (), true⟩ : SparseLocoCfg Unit) [3689348814741910323]
          14757395258967641292 = some (.ok layout) ∧
        layout.spans = [(40, 2 ^ 64 - 1, 39, 0)] ∧
        ¬Tiles 0 ((0, headerBytes) :: layout.spans.flatMap pieces) layout.totalLen := by
  have scheduled : windows .wrap [3689348814741910323] 14757395258967641292 =
      some [⟨0, 0, 0, 14757395258967641292⟩] := by
    have short : ¬Overlong 0 [3689348814741910323] := by
      rintro ⟨position, numel, found, _, late⟩
      have inside := (List.getElem?_eq_some_iff.mp found).1
      rw [List.length_singleton] at inside
      omega
    rw [(windows_eq .wrap (by decide) (by decide)).2 short, enumerate, enumerate, List.append_nil]
    exact congrArg some (paramWindows_single 0 0 (by decide) (by decide))
  refine ⟨⟨1, 1, 24, 14757395258967641292, 1, [⟨0, 0, 0, 14757395258967641292⟩],
    [(40, 2 ^ 64 - 1, 39, 0)], 39⟩, ?_, rfl, ?_⟩
  · have checked : checkLayout (⟨1, 1, 24, (), true⟩ : SparseLocoCfg Unit)
        [3689348814741910323] 14757395258967641292 = .ok () := by decide
    decide
  · intro tiled
    exact absurd (tiled.bounds_of_mem List.mem_cons_self).2.2 (by decide)

end PayloadLayout

end DaemonNode
