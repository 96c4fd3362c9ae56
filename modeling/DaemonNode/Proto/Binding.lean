import DaemonNode.Proto.Canonical
import Mathlib.Data.List.Perm.Basic

/-!
# Canonical bytes bind their value

Two values are the same up to the order of map entries and the payload of NaNs.
Of the values the writer takes, the same ones have the same bytes and the bytes
of different ones differ, whatever follows them. The induction carries the
second half in that form, as the members of a container are written one after
the other.
-/

namespace DaemonNode.Canonical

/-- One bit pattern, or two that are not numbers. -/
def SameFloat (left right : BitVec 64) : Prop :=
  left = right ∨ isNan left = true ∧ isNan right = true

/-- One value, up to the order of map entries and the payload of NaNs. -/
inductive Same : Value → Value → Prop
  | integer (value : Int) : Same (.integer value) (.integer value)
  | bytes (bytes : List Byte) : Same (.bytes bytes) (.bytes bytes)
  | float {left right : BitVec 64} (same : SameFloat left right) : Same (.float left) (.float right)
  | text (utf8 : List Byte) : Same (.text utf8) (.text utf8)
  | bool (value : Bool) : Same (.bool value) (.bool value)
  | null : Same .null .null
  | tag {left right : Value} (number : BitVec 64) (inner : Same left right) :
      Same (.tag number left) (.tag number right)
  | array {left right : List Value} (items : List.Forall₂ Same left right) :
      Same (.array left) (.array right)
  | map {left middle right : List (Value × Value)}
      (keys : List.Forall₂ Same (left.map Prod.fst) (middle.map Prod.fst))
      (values : List.Forall₂ Same (left.map Prod.snd) (middle.map Prod.snd))
      (rearranged : middle.Perm right) :
      Same (.map left) (.map right)

/-- The writer takes a value: its integers are in range, its lengths fit a head,
and the keys of each of its maps are written differently. -/
inductive Encodable : Value → Prop
  | integer {value : Int} (lower : -2 ^ 64 ≤ value) (upper : value < 2 ^ 64) :
      Encodable (.integer value)
  | bytes {bytes : List Byte} (fits : bytes.length < 2 ^ 64) : Encodable (.bytes bytes)
  | float (bits : BitVec 64) : Encodable (.float bits)
  | text {utf8 : List Byte} (fits : utf8.length < 2 ^ 64) : Encodable (.text utf8)
  | bool (value : Bool) : Encodable (.bool value)
  | null : Encodable .null
  | tag {inner : Value} (number : BitVec 64) (innerEncodable : Encodable inner) :
      Encodable (.tag number inner)
  | array {items : List Value} (fits : items.length < 2 ^ 64)
      (each : ∀ item ∈ items, Encodable item) :
      Encodable (.array items)
  | map {entries : List (Value × Value)} (fits : entries.length < 2 ^ 64)
      (keys : ∀ entry ∈ entries, Encodable entry.1)
      (values : ∀ entry ∈ entries, Encodable entry.2)
      (distinct : entries.Pairwise fun left right =>
        writeValue left.1 ≠ writeValue right.1) :
      Encodable (.map entries)

def Writes (value : Value) (bytes : List Byte) : Prop := writeValue value = .ok bytes

/-- The writer writes the key and the value of an entry as two words. -/
def WritesEntry (entry : Value × Value) (words : List Byte × List Byte) : Prop :=
  Writes entry.1 words.1 ∧ Writes entry.2 words.2

variable {items : List Value} {entries : List (Value × Value)}
variable {encoded : List (List Byte × List Byte)} {left right : BitVec 64}

theorem writeItems_of_forall₂ (wrote : List.Forall₂ Writes items words) :
    writeItems items = .ok words.flatten := by
  induction wrote with
  | nil => rfl
  | cons first _ ih =>
    rw [writeItems, first, ih]
    rfl

theorem writeEntries_of_forall₂ (wrote : List.Forall₂ WritesEntry entries encoded) :
    writeEntries entries = .ok encoded := by
  induction wrote with
  | nil => rfl
  | @cons entry words _ _ first _ ih =>
    obtain ⟨key, value⟩ := entry
    rw [writeEntries, first.1, first.2, ih]
    rfl

/-- The bytes of a map whose entries are encoded. -/
def mapBody (encoded : List (List Byte × List Byte)) : List Byte :=
  (encoded.insertionSort fun left right => left.1 ≤ right.1).flatMap fun entry => entry.1 ++ entry.2

theorem writes_array (fits : items.length < 2 ^ 64) (wrote : List.Forall₂ Writes items words) :
    Writes (.array items) (writeHead 4 items.length ++ words.flatten) := by
  rw [Writes, writeValue, writeItems_of_forall₂ wrote, lengthArg, Nat.mod_eq_of_lt fits]
  rfl

theorem writes_map
    (fits : entries.length < 2 ^ 64) (wrote : List.Forall₂ WritesEntry entries encoded) :
    Writes (.map entries) (writeHead 5 entries.length ++ mapBody encoded) := by
  have long : lengthArg (encoded.insertionSort fun left right => left.1 ≤ right.1) =
      entries.length := by
    rw [lengthArg, List.length_insertionSort, ← wrote.length_eq, Nat.mod_eq_of_lt fits]
  rw [Writes, writeValue, writeEntries_of_forall₂ wrote]
  change Except.ok (writeHead 5 (lengthArg _) ++ _) = _
  rw [long]
  rfl

/-- A value, the head it begins with and the body that follows. -/
inductive Written : Value → Head → List Byte → Prop
  | unsigned (arg : Nat) : Written (.integer arg) (.sized .unsigned arg) []
  | negative (arg : Nat) : Written (.integer (-1 - arg)) (.sized .negative arg) []
  | bytes {arg : Nat} (bytes : List Byte) (length : bytes.length = arg) :
      Written (.bytes bytes) (.sized .bytes arg) bytes
  | text {arg : Nat} (utf8 : List Byte) (length : utf8.length = arg) :
      Written (.text utf8) (.sized .text arg) utf8
  | array {arg : Nat} {items : List Value} {words : List (List Byte)}
      (length : items.length = arg) (wrote : List.Forall₂ Writes items words) :
      Written (.array items) (.sized .array arg) words.flatten
  | map {arg : Nat} {entries : List (Value × Value)}
      {encoded : List (List Byte × List Byte)}
      (length : entries.length = arg) (wrote : List.Forall₂ WritesEntry entries encoded) :
      Written (.map entries) (.sized .map arg) (mapBody encoded)
  | tag {arg : Nat} {number : BitVec 64} {inner : Value} {body : List Byte}
      (is : number.toNat = arg) (wrote : Writes inner body) :
      Written (.tag number inner) (.sized .tag arg) body
  | no : Written (.bool false) (.simple .no) []
  | yes : Written (.bool true) (.simple .yes) []
  | null : Written .null (.simple .null) []
  | half {bits : BitVec 64} (half : BitVec 16)
      (holds : SameFloat (f32ToF64 (halfToF32 half)) bits) :
      Written (.float bits) (.simple .half) (toBeBytes 2 half.toNat)
  | single {bits : BitVec 64} (single : BitVec 32) (holds : f32ToF64 single = bits) :
      Written (.float bits) (.simple .single) (toBeBytes 4 single.toNat)
  | double (bits : BitVec 64) : Written (.float bits) (.simple .double) (toBeBytes 8 bits.toNat)

/-- A double is written in one of the three widths, in a word that holds it. -/
theorem writeFloat_written (bits : BitVec 64) :
    ∃ head body, Written (.float bits) head body ∧ head.Fits ∧
      writeFloat bits = head.bytes ++ body := by
  rw [writeFloat]
  by_cases nan : isNan bits = true
  · rw [if_pos nan]
    refine ⟨_, _, .half 0x7e00#16 (.inr ⟨?_, nan⟩), trivial, rfl⟩
    decide +kernel
  · rw [if_neg nan]
    by_cases narrow : f32ToF64 (f64ToF32 bits) = bits
    · simp only [if_pos narrow]
      cases exact : f32ToHalfExact (f64ToF32 bits) with
      | some half =>
        have holds : f32ToF64 (halfToF32 half) = bits := by
          obtain ⟨back, is⟩ := Option.ite_none_right_eq_some.mp exact
          rw [← Option.some.inj is, back, narrow]
        exact ⟨_, _, .half half (.inl holds), trivial, rfl⟩
      | none => exact ⟨_, _, .single _ narrow, trivial, rfl⟩
    · simp only [if_neg narrow]
      exact ⟨_, _, .double bits, trivial, rfl⟩

theorem Encodable.written (encodable : Encodable value) :
    ∃ head body, Written value head body ∧ head.Fits ∧ Writes value (head.bytes ++ body) := by
  induction encodable with
  | @integer value lower upper =>
    by_cases natural : 0 ≤ value
    · obtain ⟨arg, rfl⟩ := Int.eq_ofNat_of_zero_le natural
      refine ⟨_, _, .unsigned arg, ?_, ?_⟩
      · change arg < 2 ^ 64
        omega
      · rw [Writes, writeValue, if_pos natural, if_pos upper]
        simp [Head.bytes, Sized.major]
    · obtain ⟨arg, is⟩ := Int.eq_ofNat_of_zero_le (show 0 ≤ -1 - value by omega)
      obtain rfl : value = -1 - arg := by omega
      refine ⟨_, _, .negative arg, ?_, ?_⟩
      · change arg < 2 ^ 64
        omega
      · rw [Writes, writeValue, if_neg natural, if_pos (by omega), is]
        simp [Head.bytes, Sized.major]
  | bytes fits =>
    refine ⟨_, _, .bytes _ rfl, fits, ?_⟩
    rw [Writes, writeValue, lengthArg, Nat.mod_eq_of_lt fits]
    rfl
  | float bits =>
    obtain ⟨head, body, written, fits, wrote⟩ := writeFloat_written bits
    exact ⟨head, body, written, fits, congrArg Except.ok wrote⟩
  | text fits =>
    refine ⟨_, _, .text _ rfl, fits, ?_⟩
    rw [Writes, writeValue, lengthArg, Nat.mod_eq_of_lt fits]
    rfl
  | bool value =>
    cases value with
    | false => exact ⟨_, _, .no, trivial, rfl⟩
    | true => exact ⟨_, _, .yes, trivial, rfl⟩
  | null => exact ⟨_, _, .null, trivial, rfl⟩
  | tag number _ ih =>
    obtain ⟨head, body, _, _, wrote⟩ := ih
    refine ⟨_, _, .tag rfl wrote, number.isLt, ?_⟩
    rw [Writes, writeValue, wrote]
    rfl
  | array fits _ ih =>
    obtain ⟨words, wrote⟩ := Lists.exists_forall₂ fun item member => by
      obtain ⟨head, body, _, _, wrote⟩ := ih item member
      exact ⟨_, wrote⟩
    exact ⟨_, _, .array rfl wrote, fits, writes_array fits wrote⟩
  | @map entries fits _ _ _ keys values =>
    have each : ∀ entry ∈ entries, ∃ words, WritesEntry entry words := by
      intro entry member
      obtain ⟨_, _, _, _, wroteKey⟩ := keys entry member
      obtain ⟨_, _, _, _, wroteValue⟩ := values entry member
      exact ⟨(_, _), wroteKey, wroteValue⟩
    obtain ⟨encoded, wrote⟩ := Lists.exists_forall₂ each
    exact ⟨_, _, .map rfl wrote, fits, writes_map fits wrote⟩

theorem SameFloat.symm (same : SameFloat left right) : SameFloat right left := by
  rcases same with rfl | ⟨first, second⟩
  · exact .inl rfl
  · exact .inr ⟨second, first⟩

theorem SameFloat.trans (same : SameFloat left middle) (other : SameFloat middle right) :
    SameFloat left right := by
  rcases same with rfl | ⟨first, second⟩
  · exact other
  · rcases other with rfl | ⟨_, third⟩
    · exact .inr ⟨first, second⟩
    · exact .inr ⟨first, third⟩

/-- The words of one width, whatever follows them. -/
theorem toNat_append_inj (count : Nat) {word other : BitVec width} (bits : 256 ^ count = 2 ^ width)
    (same : toBeBytes count word.toNat ++ rest = toBeBytes count other.toNat ++ otherRest) :
    word = other ∧ rest = otherRest := by
  obtain ⟨sameNat, ended⟩ := toBeBytes_append_inj (bits ▸ word.isLt) (bits ▸ other.isLt) same
  exact ⟨BitVec.eq_of_toNat_eq sameNat, ended⟩

/-- The entries of a map in the order in which they are written. -/
theorem exists_perm_mapBody (wrote : List.Forall₂ WritesEntry entries encoded) :
    ∃ ordered words, entries.Perm ordered ∧ mapBody encoded = List.flatten words ∧
      List.Forall₂ (Codes.pairWord Writes Writes) ordered words := by
  let sorted := encoded.insertionSort fun left right => left.1 ≤ right.1
  have rearranged : encoded.Perm sorted := (List.perm_insertionSort _ encoded).symm
  have composed : Relation.Comp (List.Forall₂ WritesEntry) List.Perm entries sorted :=
    ⟨encoded, wrote, rearranged⟩
  rw [List.forall₂_comp_perm_eq_perm_comp_forall₂] at composed
  obtain ⟨ordered, arranged, wroteOrdered⟩ := composed
  have body : mapBody encoded = (sorted.map fun entry => entry.1 ++ entry.2).flatten :=
    List.flatMap_def
  refine ⟨ordered, _, arranged, body, ?_⟩
  apply List.forall₂_map_right_iff.mpr
  exact wroteOrdered.imp fun entry words wroteEntry =>
    ⟨words.1, words.2, wroteEntry.1, wroteEntry.2, rfl⟩

/-- Maps of one size are told apart when their keys and values are. -/
theorem settles_mapBody
    (keys : ∀ entry ∈ entries, ∀ other ∈ others, Codes.Settles Writes Same entry.1 other.1)
    (values : ∀ entry ∈ entries, ∀ other ∈ others, Codes.Settles Writes Same entry.2 other.2)
    (wrote : List.Forall₂ WritesEntry entries encoded)
    (wroteOthers : List.Forall₂ WritesEntry others otherEncoded)
    (length_eq : entries.length = others.length)
    (equal : mapBody encoded ++ rest = mapBody otherEncoded ++ otherRest) :
    Same (.map entries) (.map others) ∧ rest = otherRest := by
  obtain ⟨ordered, words, arranged, body, wroteOrdered⟩ := exists_perm_mapBody wrote
  obtain ⟨otherOrdered, otherWords, otherArranged, otherBody, wroteOtherOrdered⟩ :=
    exists_perm_mapBody wroteOthers
  rw [body, otherBody] at equal
  obtain ⟨same, ended⟩ := Codes.Settles.list
    (fun entry member other otherMember =>
      (keys entry (arranged.mem_iff.mpr member) other (otherArranged.mem_iff.mpr otherMember)).pair
      (values entry (arranged.mem_iff.mpr member) other (otherArranged.mem_iff.mpr otherMember)))
    wroteOrdered wroteOtherOrdered
    (by rw [← arranged.length_eq, ← otherArranged.length_eq, length_eq]) equal
  obtain ⟨middle, paired, rearranged⟩ := List.perm_comp_forall₂ arranged same
  refine ⟨.map ?_ ?_ (rearranged.trans otherArranged.symm), ended⟩
  · rw [List.forall₂_map_left_iff, List.forall₂_map_right_iff]
    exact paired.imp fun _ _ both => both.1
  · rw [List.forall₂_map_left_iff, List.forall₂_map_right_iff]
    exact paired.imp fun _ _ both => both.2

/-- The values directly inside a value. -/
def Value.members : Value → List Value
  | tag _ inner => [inner]
  | array items => items
  | map entries => entries.map Prod.fst ++ entries.map Prod.snd
  | _ => []

theorem Value.key_mem_members (member : entry ∈ entries) : entry.1 ∈ (Value.map entries).members :=
  List.mem_append_left _ (List.mem_map_of_mem member)

theorem Value.value_mem_members (member : entry ∈ entries) :
    entry.2 ∈ (Value.map entries).members :=
  List.mem_append_right _ (List.mem_map_of_mem member)

theorem Value.forall_mem_members {motive : Value → Prop} :
    (∀ member ∈ (Value.map entries).members, motive member) ↔
      (∀ entry ∈ entries, motive entry.1) ∧ ∀ entry ∈ entries, motive entry.2 := by
  rw [members, List.forall_mem_append, List.forall_mem_map, List.forall_mem_map]

theorem Encodable.member {member : Value} (encodable : Encodable value)
    (inside : member ∈ value.members) :
    Encodable member := by
  cases encodable with
  | tag number inner => exact List.mem_singleton.mp inside ▸ inner
  | array fits each => exact each member inside
  | map fits keys values distinct =>
    exact Value.forall_mem_members.mpr ⟨keys, values⟩ member inside
  | _ => exact absurd inside List.not_mem_nil

/-- What passes from the members of a value to the value holds of every value
the writer takes. -/
@[elab_as_elim] theorem Encodable.induct {motive : Value → Prop}
    (step : ∀ value, Encodable value → (∀ member ∈ value.members, motive member) → motive value)
    (encodable : Encodable value) :
    motive value := by
  induction encodable with
  | tag number inner holds =>
    refine step _ (.tag number inner) fun member inside => ?_
    rwa [List.mem_singleton.mp inside]
  | array fits each holds => exact step _ (.array fits each) holds
  | map fits keys values distinct keysHold valuesHold =>
    apply step _ (.map fits keys values distinct)
    exact Value.forall_mem_members.mpr ⟨keysHold, valuesHold⟩
  | integer lower upper => exact step _ (.integer lower upper) (List.forall_mem_nil _)
  | bytes fits => exact step _ (.bytes fits) (List.forall_mem_nil _)
  | float bits => exact step _ (.float bits) (List.forall_mem_nil _)
  | text fits => exact step _ (.text fits) (List.forall_mem_nil _)
  | bool value => exact step _ (.bool value) (List.forall_mem_nil _)
  | null => exact step _ .null (List.forall_mem_nil _)

/-- Under one head, bodies agree only if the values are the same. -/
theorem Written.settles {left right : Value} {head : Head}
    (members : ∀ member ∈ left.members, ∀ other ∈ right.members,
      Codes.Settles Writes Same member other)
    (written : Written left head body) (otherWritten : Written right head otherBody)
    (equal : body ++ rest = otherBody ++ otherRest) :
    Same left right ∧ rest = otherRest := by
  cases written with
  | unsigned | negative =>
    cases otherWritten
    exact ⟨.integer _, equal⟩
  | bytes _ length =>
    cases otherWritten with
    | bytes _ otherLength =>
      obtain ⟨rfl, ended⟩ := List.append_inj equal (length.trans otherLength.symm)
      exact ⟨.bytes _, ended⟩
  | text _ length =>
    cases otherWritten with
    | text _ otherLength =>
      obtain ⟨rfl, ended⟩ := List.append_inj equal (length.trans otherLength.symm)
      exact ⟨.text _, ended⟩
  | array length wrote =>
    cases otherWritten with
    | array otherLength wroteOthers =>
      obtain ⟨same, ended⟩ := Codes.Settles.list members wrote wroteOthers
        (length.trans otherLength.symm) equal
      exact ⟨.array same, ended⟩
  | map length wrote =>
    cases otherWritten with
    | map otherLength wroteOthers =>
      exact settles_mapBody
        (fun _ member _ otherMember => members _ (Value.key_mem_members member) _
          (Value.key_mem_members otherMember))
        (fun _ member _ otherMember => members _ (Value.value_mem_members member) _
          (Value.value_mem_members otherMember))
        wrote wroteOthers (length.trans otherLength.symm) equal
  | tag number wrote =>
    cases otherWritten with
    | tag otherNumber wroteOther =>
      obtain rfl := BitVec.eq_of_toNat_eq (number.trans otherNumber.symm)
      obtain ⟨same, ended⟩ := members _ List.mem_cons_self _ List.mem_cons_self
        _ _ _ _ wrote wroteOther equal
      exact ⟨.tag _ same, ended⟩
  | no | yes =>
    cases otherWritten
    exact ⟨.bool _, equal⟩
  | null =>
    cases otherWritten
    exact ⟨.null, equal⟩
  | half half holds =>
    cases otherWritten with
    | half otherHalf otherHolds =>
      obtain ⟨rfl, ended⟩ := toNat_append_inj 2 (by decide) equal
      exact ⟨.float (holds.symm.trans otherHolds), ended⟩
  | single single holds =>
    cases otherWritten with
    | single otherSingle otherHolds =>
      obtain ⟨rfl, ended⟩ := toNat_append_inj 4 (by decide) equal
      exact ⟨.float (.inl (holds.symm.trans otherHolds)), ended⟩
  | double bits =>
    cases otherWritten with
    | double otherBits =>
      obtain ⟨rfl, ended⟩ := toNat_append_inj 8 (by decide) equal
      exact ⟨.float (.inl rfl), ended⟩

/-- Whatever follows them, the bytes of two values agree only if the values are
the same. -/
theorem Encodable.settles {left : Value} (encodable : Encodable left) :
    ∀ right, Encodable right → Codes.Settles Writes Same left right := by
  refine Encodable.induct ?_ encodable
  intro left encodable ih right otherEncodable word otherWord rest otherRest wrote wroteOther equal
  obtain ⟨head, body, written, fits, bytes⟩ := encodable.written
  obtain ⟨otherHead, otherBody, otherWritten, otherFits, otherBytes⟩ := otherEncodable.written
  obtain rfl := Except.ok.inj (wrote.symm.trans bytes)
  obtain rfl := Except.ok.inj (wroteOther.symm.trans otherBytes)
  rw [List.append_assoc, List.append_assoc] at equal
  obtain ⟨rfl, bodies⟩ := Head.append_inj fits otherFits equal
  refine written.settles (fun member inside other otherInside => ?_) otherWritten bodies
  exact ih member inside other (otherEncodable.member otherInside)

theorem SameFloat.writeFloat_eq (same : SameFloat left right) :
    writeFloat left = writeFloat right := by
  rcases same with rfl | ⟨nan, otherNan⟩
  · rfl
  · rw [writeFloat, writeFloat, if_pos nan, if_pos otherNan]

/-- Keys written differently are different words. -/
theorem pairwise_ne_of_forall₂
    (distinct : entries.Pairwise fun left right => writeValue left.1 ≠ writeValue right.1)
    (wrote : List.Forall₂ WritesEntry entries encoded) :
    encoded.Pairwise fun left right => left.1 ≠ right.1 := by
  induction wrote with
  | nil => exact .nil
  | @cons entry words entries encoded first rest ih =>
    obtain ⟨apart, distinct⟩ := List.pairwise_cons.mp distinct
    refine List.pairwise_cons.mpr ⟨?_, ih distinct⟩
    intro other member same
    obtain ⟨source, inside, wroteOther⟩ := Lists.exists_of_mem_forall₂ rest member
    apply apart source inside
    rw [first.1, wroteOther.1, same]

theorem Encodable.writes (encodable : Encodable value) : ∃ bytes, Writes value bytes := by
  obtain ⟨head, body, _, _, wrote⟩ := encodable.written
  exact ⟨_, wrote⟩

/-- Two values are written alike. -/
def Alike (left right : Value) : Prop := writeValue left = writeValue right

theorem forall₂_alike (each : ∀ item ∈ items, ∀ other, Same item other → Alike item other)
    (same : List.Forall₂ Same items others) :
    List.Forall₂ Alike items others :=
  ((List.forall₂_and_left _ _).mpr ⟨each, same⟩).imp fun _ other both => both.1 other both.2

theorem alike_array (encodable : Encodable (.array items))
    (alike : List.Forall₂ Alike items others) :
    Alike (.array items) (.array others) := by
  cases encodable with
  | array fits each =>
    obtain ⟨words, wrote⟩ := Lists.exists_forall₂ fun item member =>
      (each item member).writes
    have wroteOthers : List.Forall₂ Writes others words :=
      Lists.forall₂_of_alike (fun _ _ _ same first => same.symm.trans first) alike wrote
    have otherFits : others.length < 2 ^ 64 := alike.length_eq ▸ fits
    rw [Alike, writes_array fits wrote, writes_array otherFits wroteOthers, alike.length_eq]

theorem alike_map {middle others : List (Value × Value)} (encodable : Encodable (.map entries))
    (keys : List.Forall₂ Alike (entries.map Prod.fst) (middle.map Prod.fst))
    (values : List.Forall₂ Alike (entries.map Prod.snd) (middle.map Prod.snd))
    (rearranged : middle.Perm others) :
    Alike (.map entries) (.map others) := by
  cases encodable with
  | map fits keysEncodable valuesEncodable distinct =>
    rw [List.forall₂_map_left_iff, List.forall₂_map_right_iff] at keys values
    have each : ∀ entry ∈ entries, ∃ words, WritesEntry entry words := by
      intro entry member
      obtain ⟨key, wroteKey⟩ := (keysEncodable entry member).writes
      obtain ⟨value, wroteValue⟩ := (valuesEncodable entry member).writes
      exact ⟨(key, value), wroteKey, wroteValue⟩
    obtain ⟨encoded, wrote⟩ := Lists.exists_forall₂ each
    have wroteMiddle : List.Forall₂ WritesEntry middle encoded := by
      have both := keys.mp (fun _ _ key value => And.intro key value) values
      exact Lists.forall₂_of_alike (fun _ _ _ same first =>
        ⟨same.1.symm.trans first.1, same.2.symm.trans first.2⟩) both wrote
    obtain ⟨listed, wroteOthers, arranged⟩ := List.perm_comp_forall₂ rearranged.symm wroteMiddle
    have length_eq : entries.length = others.length := keys.length_eq.trans rearranged.length_eq
    rw [Alike, writes_map fits wrote, writes_map (length_eq ▸ fits) wroteOthers, length_eq,
      mapBody, mapBody,
      Lists.insertionSort_key_eq_of_perm (pairwise_ne_of_forall₂ distinct wrote) arranged]

/-- The same value is written as the same bytes. -/
theorem Encodable.alike {left : Value} (encodable : Encodable left) :
    ∀ right, Same left right → Alike left right := by
  refine Encodable.induct ?_ encodable
  intro left encodable ih right same
  cases same with
  | float same => exact congrArg Except.ok same.writeFloat_eq
  | tag number inner =>
    have alike := ih _ List.mem_cons_self _ inner
    rw [Alike, writeValue, writeValue, alike]
  | array same => exact alike_array encodable (forall₂_alike ih same)
  | map keys values rearranged =>
    have both := List.forall_mem_append.mp ih
    exact alike_map encodable (forall₂_alike both.1 keys) (forall₂_alike both.2 values) rearranged
  | _ => rfl

/-- Of the values the writer takes, two have the same bytes exactly if they are
the same, and no bytes begin other ones. -/
theorem canonical_bytes_bind {left right : Value} (encodable : Encodable left)
    (otherEncodable : Encodable right) :
    ∃ bytes otherBytes, writeValue left = .ok bytes ∧ writeValue right = .ok otherBytes ∧
      (bytes = otherBytes ↔ Same left right) ∧
      (bytes <+: otherBytes → bytes = otherBytes) := by
  obtain ⟨bytes, wrote⟩ := encodable.writes
  obtain ⟨otherBytes, wroteOther⟩ := otherEncodable.writes
  have settles := encodable.settles right otherEncodable
  refine ⟨bytes, otherBytes, wrote, wroteOther, ⟨?_, ?_⟩, ?_⟩
  · rintro rfl
    exact (settles.eq_of_isPrefix wrote wroteOther (List.prefix_refl _)).1
  · intro same
    exact Except.ok.inj (wrote.symm.trans ((encodable.alike right same).trans wroteOther))
  · intro begins
    exact (settles.eq_of_isPrefix wrote wroteOther begins).2

/-- Two entries, the second of them a float. -/
def sampleEntries (bits : BitVec 64) : List (Value × Value) :=
  [(.integer 1, .array [.bool true, .null]), (.text [0x62], .float bits)]

theorem encodable_sampleEntries (listed : (sampleEntries bits).Perm entries) :
    Encodable (.map entries) := by
  have keys : ∀ entry ∈ sampleEntries bits, Encodable entry.1 := by
    intro entry member
    rcases List.mem_pair.mp member with rfl | rfl
    · exact .integer (by decide) (by decide)
    · exact .text (by decide)
  have values : ∀ entry ∈ sampleEntries bits, Encodable entry.2 := by
    intro entry member
    rcases List.mem_pair.mp member with rfl | rfl
    · refine .array (by decide) fun item inside => ?_
      rcases List.mem_pair.mp inside with rfl | rfl
      · exact .bool true
      · exact .null
    · exact .float bits
  have distinct : (sampleEntries bits).Pairwise fun left right =>
      writeValue left.1 ≠ writeValue right.1 := by
    rw [sampleEntries, List.pairwise_pair]
    change writeValue (.integer 1) ≠ writeValue (.text [0x62])
    decide +kernel
  refine .map ?_ (fun entry member => keys entry (listed.mem_iff.mpr member))
    (fun entry member => values entry (listed.mem_iff.mpr member))
    (listed.pairwise distinct fun different => different.symm)
  rw [← listed.length_eq]
  exact (by decide : 2 < 2 ^ 64)

/-- Two maps in two orders, with two NaNs, and their bytes. -/
theorem rearranged_map_binds :
    writeValue (.map (sampleEntries 0x7ff8000000000000#64)) =
        .ok [0xa2, 0x01, 0x82, 0xf5, 0xf6, 0x61, 0x62, 0xf9, 0x7e, 0x00] ∧
      ∃ bytes otherBytes,
        writeValue (.map (sampleEntries 0x7ff8000000000000#64)) = .ok bytes ∧
        writeValue (.map (sampleEntries 0x7ff0000000000001#64).reverse) = .ok otherBytes ∧
        (bytes = otherBytes ↔ Same (.map (sampleEntries 0x7ff8000000000000#64))
          (.map (sampleEntries 0x7ff0000000000001#64).reverse)) ∧
        (bytes <+: otherBytes → bytes = otherBytes) :=
  ⟨by decide +kernel, canonical_bytes_bind (encodable_sampleEntries (.refl _))
    (encodable_sampleEntries (List.reverse_perm _).symm)⟩

end DaemonNode.Canonical
