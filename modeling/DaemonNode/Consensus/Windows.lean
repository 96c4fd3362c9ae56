import DaemonNode.Proto.DetState

/-!
# Fold windows

A streamed fold walks the windows of a parameter layout: parameters in
registration order, windows ascending within each parameter. The enumeration
has its own loop. It agrees with the chunk count, the chunk lengths and the
chunk hashes of the state family, so the position of a window in the walk is the
ordinal of its chunk.
-/

namespace DaemonNode

open DetState
open Parts (Tiles)
open Word (Overflow)

/-- One fold window. -/
structure Window where
  /-- Walk position and chunk ordinal. -/
  (ordinal param : Nat)
  /-- Byte offset within the parameter. -/
  (paramOff len : Nat)
  deriving DecidableEq, Repr

/-- The loop over one parameter's windows from an offset on, in at most the given
number of iterations. -/
def paramWindows (param windowSize byteLen : Nat) : Nat → Nat → Nat → List Window
  | 0, _, _ => []
  | count + 1, ordinal, off =>
    if off < byteLen then
      let len := min (byteLen - off) windowSize
      ⟨ordinal, param, off, len⟩ ::
        paramWindows param windowSize byteLen count (ordinal + 1) (off + len)
    else []

/-- The loop over the parameters from an index on. A window of a parameter whose
index does not fit 32 bits is a panic. Every iteration of the inner loop
advances by a byte at least, so a parameter takes at most its byte length. -/
def windowsFrom (mode : Overflow) (windowSize : Nat) :
    Nat → Nat → List Nat → Option (List Window)
  | _, _, [] => some []
  | param, ordinal, numel :: numels => do
    let byteLen ← mode.mul 64 numel stateElemBytes
    if 0 < byteLen ∧ 2 ^ 32 ≤ param then none
    else
      let own := paramWindows param windowSize byteLen byteLen ordinal 0
      let later ← windowsFrom mode windowSize (param + 1) (ordinal + own.length) numels
      some (own ++ later)

/-- The fold windows of a parameter layout. The chunk count is computed first,
for the capacity of the result. -/
def windows (mode : Overflow) (numels : List Nat) (windowSize : Nat) :
    Option (List Window) :=
  if windowSize = 0 then some []
  else do
    let _ ← familyChunkCount mode numels windowSize
    windowsFrom mode windowSize 0 0 numels

namespace Window

/-- The bounds of a window within its parameter. -/
def span (window : Window) : Nat × Nat := (window.paramOff, window.paramOff + window.len)

def slice (params : List (List Byte)) (window : Window) : List Byte :=
  ((params.getD window.param []).drop window.paramOff).take window.len

end Window

theorem param_of_mem_paramWindows
    (member : window ∈ paramWindows param windowSize byteLen count ordinal off) :
    window.param = param := by
  induction count generalizing ordinal off with
  | zero => simp [paramWindows] at member
  | succ count ih =>
    rw [paramWindows] at member
    split at member
    · rcases List.mem_cons.mp member with rfl | later
      · rfl
      · exact ih later
    · simp at member

theorem map_ordinal_paramWindows :
    (paramWindows param windowSize byteLen count ordinal off).map Window.ordinal =
      List.range' ordinal (paramWindows param windowSize byteLen count ordinal off).length := by
  induction count generalizing ordinal off with
  | zero => rfl
  | succ count ih =>
    rw [paramWindows]
    split
    · rw [List.map_cons, ih, List.length_cons, List.range'_succ]
    · rfl

/-- The lengths of the windows are those of the chunks. -/
theorem map_len_paramWindows :
    (paramWindows param windowSize byteLen count ordinal off).map Window.len =
      Parts.cuts windowSize count (byteLen - off) := by
  induction count generalizing ordinal off with
  | zero => rfl
  | succ count ih =>
    rw [paramWindows, Parts.cuts]
    by_cases inside : off < byteLen
    · rw [if_pos inside, if_pos (by omega), List.map_cons, ih, Nat.sub_add_eq]
    · rw [if_neg inside, if_neg (by omega), List.map_nil]

/-- The windows of a parameter tile its bytes. -/
theorem paramWindows_tiles (positive : 0 < windowSize) (within : off ≤ byteLen)
    (enough : byteLen - off ≤ count) :
    Tiles off ((paramWindows param windowSize byteLen count ordinal off).map Window.span)
      byteLen := by
  induction count generalizing ordinal off with
  | zero =>
    obtain rfl : off = byteLen := by omega
    exact .nil off
  | succ count ih =>
    rw [paramWindows]
    split
    · rename_i inside
      rw [List.map_cons]
      refine .cons (Nat.le_add_right _ _) (ih ?_ ?_)
      · dsimp only
        omega
      · dsimp only
        omega
    · rename_i outside
      obtain rfl : off = byteLen := by omega
      exact .nil off

/-- A parameter no longer than a window has one. -/
theorem paramWindows_single (param ordinal : Nat) (present : 0 < byteLen)
    (short : byteLen ≤ windowSize) :
    paramWindows param windowSize byteLen byteLen ordinal 0 = [⟨ordinal, param, 0, byteLen⟩] := by
  obtain ⟨count, rfl⟩ := Nat.exists_eq_add_one.mpr present
  rw [paramWindows, if_pos present, Nat.sub_zero, Nat.min_eq_left short]
  dsimp only
  rw [Nat.zero_add]
  cases count with
  | zero => rfl
  | succ count => rw [paramWindows, if_neg (Nat.lt_irrefl _)]

theorem map_slice_paramWindows (param ordinal : Nat) {bytes : List Byte}
    (length_eq : bytes.length = byteLen) :
    (paramWindows param windowSize byteLen count ordinal off).map (fun window =>
        (bytes.drop window.paramOff).take window.len) =
      Parts.chunks windowSize count (bytes.drop off) := by
  induction count generalizing ordinal off with
  | zero => rfl
  | succ count ih =>
    rw [paramWindows, Parts.chunks]
    by_cases inside : off < byteLen
    · have nonempty : ¬(bytes.drop off).isEmpty = true := by
        rw [List.isEmpty_iff, List.drop_eq_nil_iff, length_eq]
        omega
      have short : (bytes.drop off).take (min (byteLen - off) windowSize) =
          (bytes.drop off).take windowSize := by
        rw [← length_eq, ← List.length_drop, Nat.min_comm, ← List.take_take, List.take_length]
      have rest : bytes.drop (off + min (byteLen - off) windowSize) =
          (bytes.drop off).drop windowSize := by
        rw [List.drop_drop]
        by_cases long : windowSize ≤ byteLen - off
        · rw [Nat.min_eq_right long]
        · rw [List.drop_eq_nil_of_le (by omega), List.drop_eq_nil_of_le (by omega)]
      rw [if_pos inside, if_neg nonempty, List.map_cons, ih, short, rest]
    · have empty : (bytes.drop off).isEmpty = true := by
        rw [List.isEmpty_iff, List.drop_eq_nil_iff, length_eq]
        omega
      rw [if_neg inside, if_pos empty, List.map_nil]

/-- The windows of a layout, parameter by parameter. -/
def enumerate (windowSize : Nat) : Nat → Nat → List Nat → List Window
  | _, _, [] => []
  | param, ordinal, numel :: numels =>
    let byteLen := numel * stateElemBytes
    let own := paramWindows param windowSize byteLen byteLen ordinal 0
    own ++ enumerate windowSize (param + 1) (ordinal + own.length) numels

/-- Some parameter with elements has an index past 32 bits. -/
def Overlong (param : Nat) (numels : List Nat) : Prop :=
  ∃ position numel, numels[position]? = some numel ∧ 0 < numel ∧ 2 ^ 32 ≤ param + position

theorem overlong_cons :
    Overlong param (numel :: numels) ↔
      (0 < numel ∧ 2 ^ 32 ≤ param) ∨ Overlong (param + 1) numels := by
  constructor
  · rintro ⟨position, other, found, positive, late⟩
    cases position with
    | zero =>
      obtain rfl : numel = other := by simpa using found
      exact .inl ⟨positive, late⟩
    | succ position => exact .inr ⟨position, other, by simpa using found, positive, by omega⟩
  · rintro (⟨positive, late⟩ | ⟨position, other, found, positive, late⟩)
    · exact ⟨0, numel, rfl, positive, late⟩
    · exact ⟨position + 1, other, by simpa using found, positive, by omega⟩

/-- The loop panics on an overlong layout and enumerates any other. -/
theorem windowsFrom_eq (mode : Overflow) (fits : (numels.map (· * stateElemBytes)).sum < 2 ^ 64) :
    (Overlong param numels → windowsFrom mode windowSize param ordinal numels = none) ∧
      (¬Overlong param numels → windowsFrom mode windowSize param ordinal numels =
        some (enumerate windowSize param ordinal numels)) := by
  induction numels generalizing param ordinal with
  | nil =>
    refine ⟨?_, fun _ => rfl⟩
    rintro ⟨position, numel, found, _⟩
    simp at found
  | cons numel numels ih =>
    have own := mul_stateElemBytes mode fits List.mem_cons_self
    rw [List.map_cons, List.sum_cons] at fits
    have hypothesis (ordinal : Nat) := @ih (param + 1) ordinal (by omega)
    have nonempty : 0 < numel * stateElemBytes ↔ 0 < numel := by
      simp [stateElemBytes]
    rw [overlong_cons, windowsFrom, own]
    simp only [Option.bind_eq_bind, Option.bind_some, nonempty]
    constructor
    · rintro (here | later)
      · rw [if_pos here]
      · split
        · rfl
        · rw [(hypothesis _).1 later]
          rfl
    · intro short
      rw [not_or] at short
      rw [if_neg short.1, (hypothesis _).2 short.2]
      rfl

/-- The windows panic on an overlong layout and enumerate any other. -/
theorem windows_eq (mode : Overflow) (positive : 0 < windowSize)
    (fits : (numels.map (· * stateElemBytes)).sum < 2 ^ 64) :
    (Overlong 0 numels → windows mode numels windowSize = none) ∧
      (¬Overlong 0 numels → windows mode numels windowSize =
        some (enumerate windowSize 0 0 numels)) := by
  have unfolded : windows mode numels windowSize = windowsFrom mode windowSize 0 0 numels := by
    simp only [windows, if_neg positive.ne', familyChunkCount_eq mode positive fits,
      Option.bind_eq_bind, Option.bind_some]
  rw [unfolded]
  exact windowsFrom_eq mode fits

theorem eq_enumerate_of_windows (positive : 0 < windowSize)
    (fits : (numels.map (· * stateElemBytes)).sum < 2 ^ 64)
    (returned : windows mode numels windowSize = some schedule) :
    schedule = enumerate windowSize 0 0 numels := by
  have enumerated := windows_eq mode positive fits
  by_cases long : Overlong 0 numels
  · rw [enumerated.1 long] at returned
    simp at returned
  · rw [enumerated.2 long] at returned
    exact (Option.some.inj returned).symm

/-- Windows that are returned without an overflow are the enumeration, and every
build returns them. -/
theorem windowsFrom_of_trap (mode : Overflow)
    (returned : windowsFrom .trap windowSize param ordinal numels = some schedule) :
    windowsFrom mode windowSize param ordinal numels = some schedule ∧
      schedule = enumerate windowSize param ordinal numels ∧
      ∀ numel ∈ numels, numel * stateElemBytes < 2 ^ 64 := by
  induction numels generalizing param ordinal schedule with
  | nil =>
    cases returned
    exact ⟨rfl, rfl, by simp⟩
  | cons numel numels ih =>
    rw [windowsFrom] at returned ⊢
    obtain ⟨byteLen, multiplied, returned⟩ := Option.bind_eq_some_iff.mp returned
    obtain ⟨fits, rfl⟩ := Overflow.trap_mul_eq_some_iff.mp multiplied
    rw [mode.mul_of_trap multiplied]
    simp only [Option.bind_eq_bind, Option.bind_some] at returned ⊢
    by_cases late : 0 < numel * stateElemBytes ∧ 2 ^ 32 ≤ param
    · rw [if_pos late] at returned
      cases returned
    · rw [if_neg late] at returned ⊢
      obtain ⟨later, rest, built⟩ := Option.bind_eq_some_iff.mp returned
      cases built
      obtain ⟨same, enumerated, bounded⟩ := ih rest
      rw [same]
      refine ⟨rfl, ?_, List.forall_mem_cons.mpr ⟨fits, bounded⟩⟩
      rw [enumerate, enumerated]

theorem windows_of_trap (mode : Overflow) (positive : 0 < windowSize)
    (returned : windows .trap numels windowSize = some schedule) :
    windows mode numels windowSize = some schedule ∧
      schedule = enumerate windowSize 0 0 numels ∧
      ∀ numel ∈ numels, numel * stateElemBytes < 2 ^ 64 := by
  unfold windows at returned ⊢
  rw [if_neg positive.ne'] at returned ⊢
  obtain ⟨count, counted, returned⟩ := Option.bind_eq_some_iff.mp returned
  have same : familyChunkCount mode numels windowSize = some count := by
    refine mode.sum_of_trap ?_ counted
    intro numel chunks found
    unfold paramChunkCount at found ⊢
    rw [if_neg positive.ne'] at found ⊢
    obtain ⟨bytes, multiplied, found⟩ := Option.bind_eq_some_iff.mp found
    rw [mode.mul_of_trap multiplied]
    exact found
  rw [same]
  exact windowsFrom_of_trap mode returned

theorem map_ordinal_enumerate :
    (enumerate windowSize param ordinal numels).map Window.ordinal =
      List.range' ordinal (enumerate windowSize param ordinal numels).length := by
  induction numels generalizing param ordinal with
  | nil => rfl
  | cons numel numels ih =>
    rw [enumerate, List.map_append, ih, map_ordinal_paramWindows,
      List.length_append, List.range'_append_1]

theorem map_len_enumerate (windowSize param ordinal : Nat) (numels : List Nat) :
    (enumerate windowSize param ordinal numels).map Window.len =
      numels.flatMap fun numel =>
        Parts.cuts windowSize (numel * stateElemBytes) (numel * stateElemBytes) := by
  induction numels generalizing param ordinal with
  | nil => rfl
  | cons numel numels ih =>
    rw [enumerate, List.map_append, ih, map_len_paramWindows, List.flatMap_cons, Nat.sub_zero]

theorem param_of_mem_enumerate (member : window ∈ enumerate windowSize param ordinal numels) :
    param ≤ window.param ∧ window.param < param + numels.length := by
  induction numels generalizing param ordinal with
  | nil => simp [enumerate] at member
  | cons numel numels ih =>
    rw [List.length_cons]
    rcases List.mem_append.mp member with own | later
    · rw [param_of_mem_paramWindows own]
      omega
    · have within := ih later
      omega

/-- Windows follow the registration order of their parameters. -/
theorem enumerate_ordered :
    (enumerate windowSize param ordinal numels).Pairwise
      fun earlier later => earlier.param ≤ later.param := by
  induction numels generalizing param ordinal with
  | nil => exact .nil
  | cons numel numels ih =>
    rw [enumerate, List.pairwise_append]
    refine ⟨?_, ih, ?_⟩
    · apply List.pairwise_of_forall_mem_list
      intro first firstMember second secondMember
      rw [param_of_mem_paramWindows firstMember, param_of_mem_paramWindows secondMember]
    · intro first firstMember second secondMember
      rw [param_of_mem_paramWindows firstMember]
      exact (Nat.le_succ param).trans (param_of_mem_enumerate secondMember).1

theorem enumerate_tiles (param ordinal : Nat) (positive : 0 < windowSize)
    (found : numels[position]? = some numel) :
    Tiles 0 (((enumerate windowSize param ordinal numels).filter fun window =>
      window.param = param + position).map Window.span) (numel * stateElemBytes) := by
  induction numels generalizing param ordinal position with
  | nil => simp at found
  | cons head numels ih =>
    rw [enumerate, List.filter_append]
    cases position with
    | zero =>
      obtain rfl : head = numel := by simpa using found
      rw [List.filter_eq_self.mpr, List.filter_eq_nil_iff.mpr, List.append_nil]
      · exact paramWindows_tiles positive (Nat.zero_le _) (by omega)
      · intro window member
        have := (param_of_mem_enumerate member).1
        simp only [decide_eq_true_eq]
        omega
      · intro window member
        simp [param_of_mem_paramWindows member]
    | succ position =>
      rw [List.filter_eq_nil_iff.mpr, List.nil_append,
        show param + (position + 1) = param + 1 + position by omega]
      · exact ih _ _ (by simpa using found)
      · intro window member
        simp [param_of_mem_paramWindows member]

theorem map_slice_enumerate (param ordinal : Nat) {params : List (List Byte)}
    (images : params.map List.length = numels.map (· * stateElemBytes)) :
    (enumerate windowSize param ordinal numels).map (fun window =>
        ((params.getD (window.param - param) []).drop window.paramOff).take window.len) =
      params.flatMap fun bytes => Parts.chunks windowSize bytes.length bytes := by
  induction numels generalizing param ordinal params with
  | nil =>
    obtain rfl : params = [] := by simpa using images
    rfl
  | cons numel numels ih =>
    cases params with
    | nil => simp at images
    | cons bytes params =>
      simp only [List.map_cons, List.cons.injEq] at images
      rw [enumerate, List.map_append, List.flatMap_cons]
      congr 1
      · have first : _ = Parts.chunks windowSize (numel * stateElemBytes)
            (bytes.drop 0) := map_slice_paramWindows param ordinal images.1
        rw [List.drop_zero] at first
        rw [images.1, ← first]
        apply List.map_congr_left
        intro window member
        rw [param_of_mem_paramWindows member, Nat.sub_self, List.getD_cons_zero]
      · rw [← ih (param + 1) _ images.2]
        apply List.map_congr_left
        intro window member
        have later := (param_of_mem_enumerate member).1
        rw [show window.param - param = window.param - (param + 1) + 1 by omega,
          List.getD_cons_succ]

/-- One chunk geometry. On a layout without overflow and a chunk size of 32 bits
the enumeration panics only if a parameter with elements has an index past 32
bits. Otherwise windows, chunk lengths, chunk count and chunk hashes agree:

* there are equally many of each, and the windows are numbered in order;
* a window is as long as its chunk, which is not empty, not longer than the
  chunk size, and hashed from exactly the window's bytes;
* the lengths add up to the byte length of the family;
* windows follow the order of the parameters, and those of each parameter tile
  its bytes. -/
theorem one_chunk_geometry (mode : Overflow) (blake3 : List Byte → Hash) (numels : List Nat)
    (params : List (List Byte)) (chunkSize : Nat) (positive : 0 < chunkSize)
    (word : chunkSize < 2 ^ 32) (fits : (numels.map (· * stateElemBytes)).sum < 2 ^ 64)
    (images : params.map List.length = numels.map (· * stateElemBytes)) :
    (windows mode numels chunkSize = none ↔ Overlong 0 numels) ∧
    ∀ schedule, windows mode numels chunkSize = some schedule →
      ∃ lens total,
        familyChunkLens mode numels chunkSize = some lens ∧
        familyChunkCount mode numels chunkSize = some schedule.length ∧
        familyByteLen mode numels = some total ∧
        schedule.map Window.ordinal = List.range schedule.length ∧
        schedule.map Window.len = lens ∧
        (∀ len ∈ lens, 0 < len ∧ len ≤ chunkSize) ∧
        lens.sum = total ∧
        familyChunkHashes blake3 params chunkSize =
          schedule.map (fun window => blake3 (window.slice params)) ∧
        schedule.map (fun window => (window.slice params).length) = lens ∧
        (schedule.Pairwise fun earlier later => earlier.param ≤ later.param) ∧
        ∀ param numel, numels[param]? = some numel →
          Tiles 0 ((schedule.filter fun window => window.param = param).map Window.span)
            (numel * stateElemBytes) := by
  have enumerated := windows_eq mode positive fits
  constructor
  · constructor
    · intro panicked
      by_contra short
      rw [enumerated.2 short] at panicked
      simp at panicked
    · exact enumerated.1
  · intro schedule returned
    obtain rfl := eq_enumerate_of_windows positive fits returned
    have lens := map_len_enumerate chunkSize 0 0 numels
    have hashed : (enumerate chunkSize 0 0 numels).map (Window.slice params) =
        params.flatMap fun bytes => Parts.chunks chunkSize bytes.length bytes := by
      rw [← map_slice_enumerate 0 0 images]
      rfl
    refine ⟨_, _, familyChunkLens_eq mode positive word fits, ?_,
      mode.sum_of_lt (fun _ => mul_stateElemBytes mode fits) fits, ?_, lens, ?_, ?_, ?_, ?_,
      enumerate_ordered, ?_⟩
    · have count := congrArg List.length lens
      rw [List.length_map, List.length_flatMap] at count
      rw [familyChunkCount_eq mode positive fits, count]
      congr 2
      apply List.map_congr_left
      intro numel _
      exact (Parts.length_cuts positive le_rfl).symm
    · rw [map_ordinal_enumerate, List.range_eq_range']
    · intro len member
      obtain ⟨numel, _, inside⟩ := List.mem_flatMap.mp member
      exact Parts.bounds_of_mem_cuts positive inside
    · rw [List.flatMap_def, List.sum_flatten, List.map_map]
      congr 1
      apply List.map_congr_left
      intro numel _
      exact Parts.sum_cuts positive le_rfl
    · rw [familyChunkHashes, if_neg positive.ne', ← hashed, List.map_map]
      rfl
    · calc
        (enumerate chunkSize 0 0 numels).map (fun window => (window.slice params).length)
            = ((enumerate chunkSize 0 0 numels).map (Window.slice params)).map List.length := by
          rw [List.map_map]
          rfl
        _ = params.flatMap fun bytes =>
              Parts.cuts chunkSize bytes.length bytes.length := by
          rw [hashed, List.map_flatMap]
          simp only [Parts.map_length_chunks]
        _ = (params.map List.length).flatMap fun bytes =>
              Parts.cuts chunkSize bytes bytes := by
          rw [List.flatMap_map]
        _ = numels.flatMap fun numel =>
              Parts.cuts chunkSize (numel * stateElemBytes) (numel * stateElemBytes) := by
          rw [images, List.flatMap_map]
    · intro param numel found
      have tiled := enumerate_tiles 0 0 positive found
      rwa [Nat.zero_add] at tiled

/-- Three parameters, one of them empty, at a chunk size that leaves short
tails. -/
theorem three_parameters_one_geometry :
    ∃ schedule,
      windows .trap [4, 0, 3] 12 = some schedule ∧
      schedule.map Window.len = [12, 4, 12] ∧
      familyChunkCount .trap [4, 0, 3] 12 = some schedule.length := by
  have geometry := one_chunk_geometry .trap (fun _ => Bytes.fill 32 0) [4, 0, 3]
    [List.replicate 16 0, [], List.replicate 12 0] 12 (by decide) (by decide) (by decide)
    (by decide)
  refine ⟨[⟨0, 0, 0, 12⟩, ⟨1, 0, 12, 4⟩, ⟨2, 2, 0, 12⟩], by decide, by decide, ?_⟩
  obtain ⟨lens, total, _, count, _⟩ := geometry.2 _ (show windows .trap [4, 0, 3] 12 =
    some [⟨0, 0, 0, 12⟩, ⟨1, 0, 12, 4⟩, ⟨2, 2, 0, 12⟩] by decide)
  exact count

end DaemonNode
