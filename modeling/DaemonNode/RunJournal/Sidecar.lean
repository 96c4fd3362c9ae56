import DaemonNode.Lib.Machine
import DaemonNode.Proto.Bytes

/-!
# Read-backs and their sidecars

A value that a run reads back is journaled. A large one is encrypted into a file of its own,
its sidecar, which is named by the hash of the value. Encryption is ideal: with the key of
the journal a file opens under the nonce and the header it was written with, and no others.
-/

namespace DaemonNode.RunJournal

open Machine

structure ExecIdentity where
  runId : Hash
  epoch : Nat
  role : String
  instanceId : Nat
  moduleHash : Hash
  deriving DecidableEq

def readbackInlineMax : Nat := 4096

/-- `LE64(ord) || LE64(instantiation_counter) || LE64(0)`. -/
def nonce (ord instantiationCounter : UInt64) : List Byte :=
  toLeBytes 8 ord.toNat ++ (toLeBytes 8 instantiationCounter.toNat ++ toLeBytes 8 0)

structure SidecarHeader where
  id : ExecIdentity
  ord : UInt64
  hash : Hash
  size : Nat
  deriving DecidableEq

structure SidecarFile where
  header : SidecarHeader
  (nonce plaintext : List Byte)

structure SidecarRef where
  hash : Hash
  (size seg : Nat)

structure ReadBackRec where
  (src kind status : UInt64)
  value : Option (List Byte)
  sidecar : Option SidecarRef

inductive SidecarError
  | missing (hash : Hash)
  | verify (detail : String)

structure Journal where
  id : ExecIdentity
  currentSegment : Nat
  (nextOrd instantiationCounter : UInt64)
  sidecars : Hash → Option SidecarFile

/-- How far a call of `read_back` comes. -/
inductive Progress
  /-- It rotates or reserves in vain. -/
  | refused
  /-- The file of the sidecar is not written. -/
  | unwritten
  /-- The sidecar is written, and the record is not. -/
  | unappended
  | returned
  deriving DecidableEq

inductive Event
  | readBack (src kind status : UInt64) (value : List Byte) (progress : Progress)
  | roll
  | setInstantiationCounter (counter : UInt64)
  /-- A crash and a reopening: the value of a call that it interrupts once its sidecar is
  written, the ordinal that is recovered, the next counter, and the sidecars still there. -/
  | reopen (interrupted : Option (List Byte)) (nextOrd counter : UInt64) (kept : Hash → Bool)

inductive Output
  | encrypted (nonce plaintext : List Byte)
  | journaled (ord counter : UInt64) (value : List Byte) (record : ReadBackRec)

namespace Journal

section Calls

variable (blake3 : List Byte → Hash) (value : List Byte) (journal : Journal)

def sidecar : SidecarFile where
  header := ⟨journal.id, journal.nextOrd, blake3 value, value.length⟩
  nonce := nonce journal.nextOrd journal.instantiationCounter
  plaintext := value

/-- `SidecarStore::put`: a value is encrypted into a file, unless there is one. -/
def put : Journal × List Output :=
  if (journal.sidecars (blake3 value)).isSome then (journal, [])
  else
    ({ journal with
        sidecars := Function.update journal.sidecars (blake3 value)
          (some (journal.sidecar blake3 value)) },
      [.encrypted (nonce journal.nextOrd journal.instantiationCounter) value])

/-- The record of a value is appended. An ordinal that overflows stops the program. -/
def append (progress : Progress) (record : ReadBackRec) : Option (Journal × List Output) :=
  if progress ≠ .returned then some (journal, [])
  else if journal.nextOrd.toNat + 1 < 2 ^ 64 then
    some ({ journal with nextOrd := journal.nextOrd + 1 },
      [.journaled journal.nextOrd journal.instantiationCounter value record])
  else none

variable (src kind status : UInt64)

/-- The record of a value in a sidecar. -/
def reference : ReadBackRec :=
  ⟨src, kind, status, none, some ⟨blake3 value, value.length, journal.currentSegment⟩⟩

def readBack (progress : Progress) : Option (Journal × List Output) :=
  if value.length ≤ readbackInlineMax then
    append value journal progress ⟨src, kind, status, some value, none⟩
  else if progress = .refused then some (journal, [])
  else
    let (stored, encrypted) := journal.put blake3 value
    if progress = .unwritten then some (journal, encrypted)
    else
      (append value stored progress (journal.reference blake3 value src kind status)).map
        fun (after, output) => (after, encrypted ++ output)

/-- A call that comes no further than its sidecar. -/
def interrupt : Option (List Byte) → Journal × List Output
  | none => (journal, [])
  | some value =>
    if value.length ≤ readbackInlineMax then (journal, []) else journal.put blake3 value

end Calls

/-- `SidecarStore::get`. -/
def get (blake3 : List Byte → Hash) (sref : SidecarRef) (ord counter : UInt64)
    (journal : Journal) : Except SidecarError (List Byte) :=
  match journal.sidecars sref.hash with
  | none => .error (.missing sref.hash)
  | some file =>
    if file.header ≠ ⟨journal.id, ord, sref.hash, sref.size⟩ then
      .error (.verify "sidecar header does not match the owning execution identity + ordinal")
    else if file.nonce ≠ nonce ord counter then .error (.verify "XChaCha20-Poly1305 auth failed")
    else if blake3 file.plaintext ≠ sref.hash then
      .error (.verify "sidecar plaintext blake3 does not match its content address")
    else .ok file.plaintext

/-- The value of a record: in the record, or in its sidecar. -/
def recover (blake3 : List Byte → Hash) (record : ReadBackRec) (ord counter : UInt64)
    (journal : Journal) : Option (List Byte) :=
  match record.value, record.sidecar with
  | some value, _ => some value
  | none, some sref => (journal.get blake3 sref ord counter).toOption
  | none, none => none

end Journal

/-- The journal as a machine. -/
def step (blake3 : List Byte → Hash) : StepFunction Journal Event Output :=
  fun journal event =>
    match event with
    | .readBack src kind status value progress =>
      journal.readBack blake3 value src kind status progress
    | .roll => some ({ journal with currentSegment := journal.currentSegment + 1 }, [])
    | .setInstantiationCounter counter =>
      some ({ journal with instantiationCounter := counter }, [])
    | .reopen interrupted nextOrd counter kept =>
      if journal.instantiationCounter < counter then
        let (stored, encrypted) := journal.interrupt blake3 interrupted
        some
          ({ stored with
              nextOrd
              instantiationCounter := counter
              sidecars := fun digest => if kept digest then stored.sidecars digest else none },
            encrypted)
      else none

/-- Whether a call fails after it may have encrypted, as its value is large. -/
def Event.failsLate : Event → Bool
  | .readBack _ _ _ value progress =>
    readbackInlineMax < value.length && (progress = .unwritten || progress = .unappended)
  | _ => false

/-- Whether an event is a successful call or a change of the counter. -/
def Event.succeeds : Event → Bool
  | .readBack _ _ _ _ progress => progress = .returned
  | .roll => true
  | .setInstantiationCounter _ => true
  | .reopen _ _ _ _ => false

/-- The value that an event stores in a sidecar. -/
def Event.large : Event → Option (List Byte)
  | .readBack _ _ _ value _ => if value.length ≤ readbackInlineMax then none else some value
  | _ => none

section Calls

variable {journal after : Journal}

theorem nonce_inj (same : nonce ord counter = nonce otherOrd otherCounter) :
    ord = otherOrd ∧ counter = otherCounter := by
  have word {first second : UInt64} (equal : toLeBytes 8 first.toNat = toLeBytes 8 second.toNat) :
      first = second :=
    UInt64.toNat_inj.mp (toLeBytes_inj first.toNat_lt second.toNat_lt equal)
  obtain ⟨ords, rest⟩ := List.append_inj same (by simp)
  exact ⟨word ords, word (List.append_inj rest (by simp)).1⟩

/-- An append that returns takes one ordinal. -/
theorem Journal.append_returned
    (appended : append value journal .returned record = some (after, output)) :
    after = { journal with nextOrd := journal.nextOrd + 1 } ∧ journal.nextOrd < after.nextOrd ∧
      output = [.journaled journal.nextOrd journal.instantiationCounter value record] := by
  simp only [append, ne_eq, not_true_eq_false, if_false] at appended
  split at appended
  · rename_i room
    cases appended
    refine ⟨rfl, ?_, rfl⟩
    rw [UInt64.lt_iff_toNat_lt, UInt64.toNat_add]
    change _ < (journal.nextOrd.toNat + 1) % 2 ^ 64
    omega
  · cases appended

theorem Journal.put_eq :
    journal.put blake3 value =
      ({ journal with sidecars := (journal.put blake3 value).1.sidecars },
        (journal.put blake3 value).2) := by
  unfold put
  split <;> rfl

/-- A value is encrypted under the current ordinal and counter. -/
theorem Journal.mem_put (told : .encrypted bytes other ∈ (journal.put blake3 value).2) :
    bytes = nonce journal.nextOrd journal.instantiationCounter ∧ other = value := by
  unfold Journal.put at told
  split at told
  · cases told
  · cases List.mem_singleton.mp told
    exact ⟨rfl, rfl⟩

/-- What a call of `read_back` that returns does. -/
theorem Journal.readBack_returned
    (answered : journal.readBack blake3 value src kind status .returned = some (after, output)) :
    ∃ encrypted record, after.id = journal.id ∧
      after.instantiationCounter = journal.instantiationCounter ∧
      journal.nextOrd < after.nextOrd ∧
      output = encrypted ++ [.journaled journal.nextOrd journal.instantiationCounter value record] ∧
      ((record = ⟨src, kind, status, some value, none⟩ ∧ encrypted = [] ∧
          after.sidecars = journal.sidecars) ∨
        (¬value.length ≤ readbackInlineMax ∧
          record = journal.reference blake3 value src kind status ∧
          encrypted = (journal.put blake3 value).2 ∧
          after.sidecars = (journal.put blake3 value).1.sidecars)) := by
  unfold Journal.readBack at answered
  split at answered
  · obtain ⟨rfl, more, rfl⟩ := Journal.append_returned answered
    exact ⟨[], _, rfl, rfl, more, rfl, .inl ⟨rfl, rfl, rfl⟩⟩
  · rename_i large
    rw [put_eq] at answered
    obtain ⟨⟨reached, told⟩, appended, same⟩ := Option.map_eq_some_iff.mp answered
    obtain ⟨rfl, more, rfl⟩ := Journal.append_returned appended
    cases same
    exact ⟨_, _, rfl, rfl, more, rfl, .inr ⟨large, rfl, rfl, rfl⟩⟩

/-- The ordinals and counters that are used up. -/
def Journal.Past (ord counter : UInt64) (journal : Journal) : Prop :=
  counter < journal.instantiationCounter ∨
    (counter = journal.instantiationCounter ∧ ord < journal.nextOrd)

/-- An event that does not fail late uses up the ordinal it encrypts with. -/
theorem step_encrypts (stepped : step blake3 journal event = some (after, output))
    (sound : event.failsLate = false)
    (rising : journal.instantiationCounter ≤ after.instantiationCounter) :
    (∀ ord counter, journal.Past ord counter → after.Past ord counter) ∧
      ∃ plaintext, ∀ bytes other, .encrypted bytes other ∈ output →
        bytes = nonce journal.nextOrd journal.instantiationCounter ∧ other = plaintext ∧
          after.Past journal.nextOrd journal.instantiationCounter := by
  have kept (ords : journal.nextOrd ≤ after.nextOrd) (ord counter : UInt64)
      (past : journal.Past ord counter) : after.Past ord counter := by
    unfold Journal.Past at past ⊢
    grind
  cases event with
  | readBack src kind status value progress =>
    have idle (unchanged : (journal, []) = (after, output)) :
        (∀ ord counter, journal.Past ord counter → after.Past ord counter) ∧
          ∃ plaintext, ∀ bytes other, .encrypted bytes other ∈ output →
            bytes = nonce journal.nextOrd journal.instantiationCounter ∧ other = plaintext ∧
              after.Past journal.nextOrd journal.instantiationCounter := by
      cases unchanged
      exact ⟨fun _ _ => id, [], by simp⟩
    cases progress with
    | refused => exact idle (by simpa [step, Journal.readBack, Journal.append] using stepped)
    | unwritten | unappended =>
      have inline : value.length ≤ readbackInlineMax := by
        simpa [Event.failsLate] using sound
      exact idle (by simpa [step, Journal.readBack, Journal.append, inline] using stepped)
    | returned =>
      obtain ⟨encrypted, record, _, counters, more, rfl, sidecar⟩ :=
        Journal.readBack_returned stepped
      refine ⟨kept (UInt64.le_of_lt more), value, fun bytes other told => ?_⟩
      have told : .encrypted bytes other ∈ (journal.put blake3 value).2 := by
        rcases sidecar with ⟨_, rfl, _⟩ | ⟨_, _, rfl, _⟩
        · simp at told
        · simpa using told
      obtain ⟨same, rfl⟩ := Journal.mem_put told
      exact ⟨same, rfl, .inr ⟨counters.symm, more⟩⟩
  | roll =>
    cases stepped
    exact ⟨fun _ _ => id, [], by simp⟩
  | setInstantiationCounter counter =>
    cases stepped
    exact ⟨kept UInt64.le_rfl, [], by simp⟩
  | reopen interrupted nextOrd counter kept =>
    simp only [step] at stepped
    split at stepped
    · rename_i later
      cases stepped
      refine ⟨fun ord used past => .inl ?_, interrupted.getD [], fun bytes other told => ?_⟩
      · unfold Journal.Past at past
        change used < counter
        grind
      · cases interrupted with
        | none => cases told
        | some value =>
          simp only [Journal.interrupt] at told
          split at told
          · cases told
          · obtain ⟨same, rfl⟩ := Journal.mem_put told
            exact ⟨same, rfl, .inl later⟩
    · cases stepped

/-- What was encrypted: with nonces that are used up, and no two values with one nonce. -/
structure Spent (outputs : List Output) (journal : Journal) : Prop where
  past : ∀ bytes plaintext, .encrypted bytes plaintext ∈ outputs →
    ∃ ord counter, bytes = nonce ord counter ∧ journal.Past ord counter
  once : ∀ bytes first second, .encrypted bytes first ∈ outputs →
    .encrypted bytes second ∈ outputs → first = second

/-- The step lemma: a new nonce is not used up yet. -/
theorem Spent.step (spent : Spent outputs journal)
    (stepped : step blake3 journal event = some (after, output)) (sound : event.failsLate = false)
    (rising : journal.instantiationCounter ≤ after.instantiationCounter) :
    Spent (outputs ++ output) after := by
  obtain ⟨kept, plaintext, fresh⟩ := step_encrypts stepped sound rising
  have apart {bytes first second : List Byte} (older : .encrypted bytes first ∈ outputs)
      (newer : .encrypted bytes second ∈ output) : first = second := by
    obtain ⟨ord, counter, rfl, past⟩ := spent.past bytes first older
    obtain ⟨rfl, rfl⟩ := nonce_inj (fresh _ _ newer).1
    rcases past with less | ⟨_, less⟩
    · exact absurd less (UInt64.lt_irrefl _)
    · exact absurd less (UInt64.lt_irrefl _)
  constructor
  · intro bytes plaintext told
    rcases List.mem_append.mp told with older | newer
    · obtain ⟨ord, counter, same, past⟩ := spent.past bytes plaintext older
      exact ⟨ord, counter, same, kept ord counter past⟩
    · obtain ⟨same, _, past⟩ := fresh bytes plaintext newer
      exact ⟨_, _, same, past⟩
  · intro bytes first second told again
    rcases List.mem_append.mp told with older | newer
    · rcases List.mem_append.mp again with oldest | newest
      · exact spent.once bytes first second older oldest
      · exact apart older newest
    · rcases List.mem_append.mp again with oldest | newest
      · exact (apart oldest newer).symm
      · rw [(fresh bytes first newer).2.1, (fresh bytes second newest).2.1]

end Calls

section Runs

variable {trace : List (Step Journal Event Output)}

/-- The values stored in sidecars along a run. -/
def largeValues (trace : List (Step Journal Event Output)) : List (List Byte) :=
  trace.filterMap fun recorded => recorded.input.large

theorem largeValues_concat (recorded : Step Journal Event Output) :
    largeValues (trace ++ [recorded]) = largeValues trace ++ recorded.input.large.toList := by
  rw [largeValues, List.filterMap_append]
  cases large : recorded.input.large <;> simp [largeValues, large]

variable {blake3 : List Byte → Hash} {start journal : Journal}

/-- When no call fails after it may have encrypted, no nonce encrypts two values. -/
theorem nonces_used_once (run : Run (graph (step blake3)) start trace journal)
    (rising : ∀ recorded ∈ trace,
      recorded.before.instantiationCounter ≤ recorded.after.instantiationCounter)
    (sound : ∀ recorded ∈ trace, recorded.input.failsLate = false) {bytes first second : List Byte}
    (once : .encrypted bytes first ∈ emitted trace)
    (again : .encrypted bytes second ∈ emitted trace) :
    first = second := by
  suffices spent : Spent (emitted trace) journal from spent.once bytes first second once again
  clear once again
  induction run with
  | nil => exact ⟨by simp, by simp⟩
  | snoc _ stepped ih =>
    rw [Lists.forall_mem_concat] at rising sound
    rw [emitted_append, emitted_singleton]
    exact (ih rising.1 sound.1).step stepped sound.2 rising.2

/-- What a run has journaled can be read again, and the sidecars are of its values. -/
structure Readable (blake3 : List Byte → Hash) (trace : List (Step Journal Event Output))
    (journal : Journal) : Prop where
  files : ∀ digest, (journal.sidecars digest).isSome →
    ∃ value ∈ largeValues trace, blake3 value = digest
  values : ∀ ord counter value record, .journaled ord counter value record ∈ emitted trace →
    journal.recover blake3 record ord counter = some value

theorem Journal.recover_congr {after : Journal} (same : after.id = journal.id)
    (kept : ∀ digest, (journal.sidecars digest).isSome →
      after.sidecars digest = journal.sidecars digest)
    (found : journal.recover blake3 record ord counter = some value) :
    after.recover blake3 record ord counter = some value := by
  unfold Journal.recover at found ⊢
  split at found
  · exact found
  · rename_i sref _ _
    unfold Journal.get at found ⊢
    cases stored : journal.sidecars sref.hash with
    | none => simp [stored, Except.toOption] at found
    | some file => simpa [kept sref.hash (by simp [stored]), stored, same] using found
  · cases found

/-- A step that keeps the files, adds at most that of its value, and journals what it can
read again. -/
theorem Readable.extend (readable : Readable blake3 trace journal) (same : after.id = journal.id)
    (kept : ∀ digest, (journal.sidecars digest).isSome →
      after.sidecars digest = journal.sidecars digest)
    (added : ∀ digest, (after.sidecars digest).isSome →
      (journal.sidecars digest).isSome ∨ ∃ value ∈ event.large, blake3 value = digest)
    (told : ∀ ord counter value record, .journaled ord counter value record ∈ output →
      after.recover blake3 record ord counter = some value) :
    Readable blake3 (trace ++ [⟨journal, event, after, output⟩]) after := by
  refine ⟨fun digest stored => ?_, fun ord counter value record journaled => ?_⟩
  · rw [largeValues_concat]
    rcases added digest stored with older | ⟨value, large, hashed⟩
    · obtain ⟨value, large, hashed⟩ := readable.files digest older
      exact ⟨value, List.mem_append_left _ large, hashed⟩
    · exact ⟨value, List.mem_append_right _ (Option.mem_toList.mpr large), hashed⟩
  · rw [emitted_append, emitted_singleton] at journaled
    rcases List.mem_append.mp journaled with older | newer
    · exact Journal.recover_congr same kept (readable.values ord counter value record older)
    · exact told ord counter value record newer

/-- The step lemma: a large value that is new gets a file of its own. -/
theorem Readable.step (readable : Readable blake3 trace journal)
    (stepped : step blake3 journal event = some (after, output)) (succeeds : event.succeeds = true)
    (fresh : ∀ value ∈ event.large, blake3 value ∉ (largeValues trace).map blake3) :
    Readable blake3 (trace ++ [⟨journal, event, after, output⟩]) after := by
  cases event with
  | readBack src kind status value progress =>
    obtain rfl : progress = .returned := by simpa [Event.succeeds] using succeeds
    obtain ⟨encrypted, record, same, _, _, rfl, sidecar⟩ := Journal.readBack_returned stepped
    rcases sidecar with ⟨rfl, rfl, files⟩ | ⟨large, rfl, rfl, files⟩
    · refine readable.extend same (fun _ _ => by rw [files]) (fun _ stored => ?_) ?_
      · exact .inl (files ▸ stored)
      · intro ord counter other record told
        cases List.mem_singleton.mp told
        rfl
    · have large : value ∈ (Event.readBack src kind status value .returned).large := if_neg large
      have unstored : ¬(journal.sidecars (blake3 value)).isSome := by
        intro stored
        obtain ⟨other, older, hashed⟩ := readable.files _ stored
        exact fresh value large (hashed ▸ List.mem_map_of_mem older)
      rw [Journal.put, if_neg unstored] at files ⊢
      dsimp only at files ⊢
      refine readable.extend same (fun digest stored => ?_) (fun digest stored => ?_) ?_
      · rw [files, Function.update_of_ne]
        rintro rfl
        exact unstored stored
      · by_cases own : digest = blake3 value
        · exact .inr ⟨value, large, own.symm⟩
        · rw [files, Function.update_of_ne own] at stored
          exact .inl stored
      · intro ord counter other record told
        obtain ⟨rfl, rfl, rfl, rfl⟩ : ord = journal.nextOrd ∧
            counter = journal.instantiationCounter ∧ other = value ∧
              record = journal.reference blake3 value src kind status := by
          simpa using told
        simp [Journal.recover, Journal.reference, Journal.get, Journal.sidecar, files, same,
          Except.toOption]
  | roll | setInstantiationCounter =>
    cases stepped
    exact readable.extend rfl (fun _ _ => rfl) (fun _ => .inl) (by simp)
  | reopen => cases succeeds

/-- Successful calls whose large values are distinct: every value can be read again. -/
theorem readBacks_recovered
    (run : Run (graph (step blake3)) start trace journal)
    (collisionFree : ∀ first ∈ largeValues trace, ∀ second ∈ largeValues trace,
      blake3 first = blake3 second → first = second)
    (created : start.sidecars = fun _ => none)
    (succeeds : ∀ recorded ∈ trace, recorded.input.succeeds = true)
    (distinct : (largeValues trace).Nodup) {ord counter : UInt64} {value : List Byte}
    {record : ReadBackRec} (journaled : .journaled ord counter value record ∈ emitted trace) :
    journal.recover blake3 record ord counter = some value := by
  suffices readable : Readable blake3 trace journal from
    readable.values ord counter value record journaled
  have apart : ((largeValues trace).map blake3).Nodup := distinct.map_on collisionFree
  clear journaled collisionFree distinct
  induction run with
  | nil => exact ⟨by simp [created], by simp⟩
  | snoc _ stepped ih =>
    rw [Lists.forall_mem_concat] at succeeds
    rw [largeValues_concat, List.map_append, List.nodup_append] at apart
    refine (ih succeeds.1 apart.1).step stepped succeeds.2 fun value large older => ?_
    exact apart.2.2 _ older _ (List.mem_map_of_mem (Option.mem_toList.mpr large)) rfl

end Runs

def soleIdentity : ExecIdentity :=
  ⟨Bytes.fill 32 0, 0, "trainer", 0, Bytes.fill 32 0⟩

def emptyJournal : Journal :=
  ⟨soleIdentity, 0, 0, 0, fun _ => none⟩

/-- A hash that tells values apart by their first byte. -/
def firstByte (value : List Byte) : Hash :=
  Bytes.fill 32 (value.headD 0)

/-- A value that does not fit into its record. -/
def largeValue (byte : Byte) : List Byte :=
  List.replicate 5000 byte

theorem not_inline_largeValue (byte : Byte) : ¬(largeValue byte).length ≤ readbackInlineMax := by
  rw [largeValue, List.length_replicate]
  decide

theorem largeValue_ne : largeValue 1 ≠ largeValue 0 := fun same =>
  absurd ((List.replicate_right_inj (by decide)).mp same) (by decide)

section Samples

variable {journal : Journal} {byte : Byte}

/-- A journal after a value that is new is stored. -/
def Journal.storing (byte : Byte) (nextOrd : UInt64) (journal : Journal) : Journal :=
  { journal with
    nextOrd
    sidecars := Function.update journal.sidecars (Bytes.fill 32 byte)
      (some (journal.sidecar firstByte (largeValue byte))) }

theorem put_largeValue (new : journal.sidecars (Bytes.fill 32 byte) = none) :
    journal.put firstByte (largeValue byte) = (journal.storing byte journal.nextOrd,
      [.encrypted (nonce journal.nextOrd journal.instantiationCounter) (largeValue byte)]) := by
  rw [Journal.put, if_neg]
  · rfl
  · change ¬(journal.sidecars (Bytes.fill 32 byte)).isSome = true
    rw [new]
    decide

theorem readBack_largeValue
    (new : journal.sidecars (Bytes.fill 32 byte) = none)
    (room : journal.nextOrd.toNat + 1 < 2 ^ 64) :
    graph (step firstByte) journal (.readBack 0 0 0 (largeValue byte) .returned)
      [.encrypted (nonce journal.nextOrd journal.instantiationCounter) (largeValue byte),
        .journaled journal.nextOrd journal.instantiationCounter (largeValue byte)
          (journal.reference firstByte (largeValue byte) 0 0 0)]
      (journal.storing byte (journal.nextOrd + 1)) := by
  have appended (record : ReadBackRec) : Journal.append (largeValue byte)
      (journal.storing byte journal.nextOrd) .returned record = _ := if_pos room
  rw [graph, step, Journal.readBack, if_neg (not_inline_largeValue byte), put_largeValue new]
  dsimp only
  rw [appended]
  rfl

/-- The sidecar of a call is written, and its record is not. -/
theorem readBack_fails (new : journal.sidecars (Bytes.fill 32 byte) = none) :
    graph (step firstByte) journal (.readBack 0 0 0 (largeValue byte) .unappended)
      [.encrypted (nonce journal.nextOrd journal.instantiationCounter) (largeValue byte)]
      (journal.storing byte journal.nextOrd) := by
  rw [graph, step, Journal.readBack, if_neg (not_inline_largeValue byte), put_largeValue new]
  rfl

/-- A call is interrupted once its sidecar is written. -/
theorem reopen_largeValue
    (new : journal.sidecars (Bytes.fill 32 byte) = none)
    (later : journal.instantiationCounter < counter) :
    graph (step firstByte) journal (.reopen (some (largeValue byte)) nextOrd counter fun _ => true)
      [.encrypted (nonce journal.nextOrd journal.instantiationCounter) (largeValue byte)]
      { journal.storing byte nextOrd with instantiationCounter := counter } := by
  simp only [graph, step, if_pos later, Journal.interrupt, if_neg (not_inline_largeValue byte),
    put_largeValue new]
  rfl

theorem readBack_again :
    graph (step firstByte) (emptyJournal.storing 0 1) (.readBack 0 0 0 (largeValue 0) .returned)
      [.journaled 1 0 (largeValue 0) (emptyJournal.reference firstByte (largeValue 0) 0 0 0)]
      (emptyJournal.storing 0 2) := by
  have stored : (emptyJournal.storing 0 1).put firstByte (largeValue 0) =
      (emptyJournal.storing 0 1, []) := rfl
  rw [graph, step, Journal.readBack, if_neg (not_inline_largeValue 0), stored]
  rfl

end Samples

theorem first_stored :
    graph (step firstByte) emptyJournal (.readBack 0 0 0 (largeValue 0) .returned)
      [.encrypted (nonce 0 0) (largeValue 0), .journaled 0 0 (largeValue 0)
        (emptyJournal.reference firstByte (largeValue 0) 0 0 0)]
      (emptyJournal.storing 0 1) :=
  readBack_largeValue rfl (by decide)

/-- A value is stored, a call is interrupted by a crash, and a value is stored after it. -/
theorem nonces_used_once_reopened :
    ∃ trace journal, Run (graph (step firstByte)) emptyJournal trace journal ∧
      .encrypted (nonce 0 0) (largeValue 0) ∈ emitted trace ∧
      .encrypted (nonce 1 0) (largeValue 1) ∈ emitted trace ∧
      .encrypted (nonce 1 1) (largeValue 2) ∈ emitted trace ∧
      ∀ bytes first second, .encrypted bytes first ∈ emitted trace →
        .encrypted bytes second ∈ emitted trace → first = second := by
  let reopened := { (emptyJournal.storing 0 1).storing 1 1 with instantiationCounter := 1 }
  have crashed : graph (step firstByte) (emptyJournal.storing 0 1)
      (.reopen (some (largeValue 1)) 1 1 fun _ => true)
      [.encrypted (nonce 1 0) (largeValue 1)] reopened := reopen_largeValue rfl (by decide)
  have again : graph (step firstByte) reopened (.readBack 0 0 0 (largeValue 2) .returned)
      [.encrypted (nonce 1 1) (largeValue 2), .journaled 1 1 (largeValue 2)
        (reopened.reference firstByte (largeValue 2) 0 0 0)] (reopened.storing 2 2) :=
    readBack_largeValue rfl (by decide)
  have run := ((Run.nil.snoc first_stored).snoc crashed).snoc again
  refine ⟨_, _, run, by simp [emitted], by simp [emitted], by simp [emitted],
    fun bytes first second => nonces_used_once run ?_ ?_⟩
  · intro recorded member
    simp at member
    rcases member with rfl | rfl | rfl <;> decide
  · simp [Event.failsLate]

/-- The record of a value is not written, and the next value has the same ordinal. -/
theorem nonce_reused_after_failure :
    ∃ trace journal, Run (graph (step firstByte)) emptyJournal trace journal ∧
      .encrypted (nonce 0 0) (largeValue 0) ∈ emitted trace ∧
      .encrypted (nonce 0 0) (largeValue 1) ∈ emitted trace ∧ largeValue 1 ≠ largeValue 0 := by
  have failed : graph (step firstByte) emptyJournal (.readBack 0 0 0 (largeValue 0) .unappended)
      [.encrypted (nonce 0 0) (largeValue 0)] (emptyJournal.storing 0 0) := readBack_fails rfl
  have other : graph (step firstByte) (emptyJournal.storing 0 0)
      (.readBack 0 0 0 (largeValue 1) .returned) [.encrypted (nonce 0 0) (largeValue 1), _] _ :=
    readBack_largeValue rfl (by decide)
  exact ⟨_, _, (Run.nil.snoc failed).snoc other, by simp [emitted], by simp [emitted],
    largeValue_ne⟩

/-- A value is stored, one is in its record, and one is stored under another counter. -/
theorem readBacks_recovered_stored :
    ∃ trace journal, Run (graph (step firstByte)) emptyJournal trace journal ∧
      (∃ record, .journaled 0 0 (largeValue 0) record ∈ emitted trace) ∧
      (∃ record, .journaled 2 5 (largeValue 1) record ∈ emitted trace) ∧
      ∀ ord counter value record, .journaled ord counter value record ∈ emitted trace →
        journal.recover firstByte record ord counter = some value := by
  let counted := { emptyJournal.storing 0 2 with instantiationCounter := 5 }
  have inline : graph (step firstByte) (emptyJournal.storing 0 1)
      (.readBack 0 0 0 [7] .returned) [.journaled 1 0 [7] ⟨0, 0, 0, some [7], none⟩]
      (emptyJournal.storing 0 2) := rfl
  have counts : graph (step firstByte) (emptyJournal.storing 0 2) (.setInstantiationCounter 5) []
      counted := rfl
  have again : graph (step firstByte) counted (.readBack 0 0 0 (largeValue 1) .returned)
      [.encrypted (nonce 2 5) (largeValue 1), .journaled 2 5 (largeValue 1)
        (counted.reference firstByte (largeValue 1) 0 0 0)] (counted.storing 1 3) :=
    readBack_largeValue rfl (by decide)
  have run := (((Run.nil.snoc first_stored).snoc inline).snoc counts).snoc again
  have small : 1 ≤ readbackInlineMax := by decide
  have recovered := @readBacks_recovered _ _ _ _ run ?_ rfl ?_ ?_
  · exact ⟨_, _, run, ⟨emptyJournal.reference firstByte (largeValue 0) 0 0 0, by simp [emitted]⟩,
      ⟨counted.reference firstByte (largeValue 1) 0 0 0, by simp [emitted]⟩,
      fun ord counter value record => recovered⟩
  · have apart : firstByte (largeValue 0) ≠ firstByte (largeValue 1) := by decide
    simp [largeValues, Event.large, not_inline_largeValue, small, apart, apart.symm]
  · simp [Event.succeeds]
  · simp [largeValues, Event.large, not_inline_largeValue, small, largeValue_ne.symm]

/-- A value that is journaled twice cannot be read at its second ordinal. -/
theorem repeated_readBack_lost :
    ∃ trace journal record, Run (graph (step firstByte)) emptyJournal trace journal ∧
      .journaled 1 0 (largeValue 0) record ∈ emitted trace ∧
      journal.recover firstByte record 1 0 = none :=
  ⟨_, _, emptyJournal.reference firstByte (largeValue 0) 0 0 0,
    (Run.nil.snoc first_stored).snoc readBack_again, by simp [emitted], rfl⟩

end DaemonNode.RunJournal
