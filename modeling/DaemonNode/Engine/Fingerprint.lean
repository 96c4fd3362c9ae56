import Mathlib.Data.List.Sort
import Mathlib.Data.Prod.Lex
import DaemonNode.Lib.Codes
import DaemonNode.Proto.Bytes

/-!
# Command fingerprints

An approval is remembered under a digest of what it approves: of a command with its
arguments, environment and directory, or of a list of labelled parts. The hasher is
fed each field behind its label, both behind their lengths, and each list behind its
count.
-/

namespace DaemonNode.Engine

open Codes (Delimits)

/-- A string, path or slice, whose length is a machine word. -/
abbrev Slice (α : Type) := {items : List α // items.length < 2 ^ 64}

def countBytes (items : Slice α) : Slice Byte :=
  ⟨toLeBytes 8 items.1.length, by rw [length_toLeBytes]; decide⟩

def feed (label : String) (bytes : Slice Byte) : List Byte :=
  toLeBytes 8 (labelBytes label).length ++ labelBytes label ++ (countBytes bytes).1 ++ bytes.1

/-- A count and a loop over what it counts. -/
def feedAll (label : String) (write : α → List Byte) (items : Slice α) : List Byte :=
  feed label (countBytes items) ++ items.1.flatMap write

structure CommandTuple where
  surface : Slice Byte
  programAbs : Slice Byte
  argv : Slice (Slice Byte)
  envDelta : Slice (Slice Byte ×ₗ Slice Byte)
  cwd : Slice Byte

namespace CommandTuple

/-- The environment in the order of its names, then of its values. -/
def env (command : CommandTuple) : Slice (Slice Byte ×ₗ Slice Byte) :=
  ⟨command.envDelta.1.insertionSort (· ≤ ·), by
    rw [List.length_insertionSort]
    exact command.envDelta.2⟩

def fed (command : CommandTuple) : List Byte :=
  feed "surface" command.surface ++ (feed "program" command.programAbs ++
    (feedAll "argc" (feed "arg") command.argv ++
      (feedAll "envc" (fun entry => feed "envk" (ofLex entry).1 ++ feed "envv" (ofLex entry).2)
        command.env ++ feed "cwd" command.cwd)))

end CommandTuple

def labeledFed (surface : Slice Byte) (parts : Slice (Slice Byte × Slice Byte)) : List Byte :=
  feed "surface" surface ++
    feedAll "partc" (fun part => feed "label" part.1 ++ feed "part" part.2) parts

/-- A byte in two lower-case hexadecimal digits. -/
def hexByte (byte : Byte) : List Char :=
  [Nat.digitChar (byte.val / 16), Nat.digitChar (byte.val % 16)]

def hex (digest : Bytes 32) : List Char := digest.asBytes.flatMap hexByte

variable (sha256 : List Byte → Bytes 32)

/-- The fingerprint of a command. -/
def compute (command : CommandTuple) : List Char := hex (sha256 command.fed)

/-- The fingerprint of a labelled tuple, for the surfaces that run no command. -/
def computeLabeled (surface : Slice Byte) (parts : Slice (Slice Byte × Slice Byte)) :
    List Char :=
  hex (sha256 (labeledFed surface parts))

theorem countBytes_inj {items others : Slice α} (same : countBytes items = countBytes others) :
    items.1.length = others.1.length :=
  toLeBytes_inj items.2 others.2 (congrArg Subtype.val same)

theorem feed_delimits (label : String) : Delimits (feed label) := by
  intro bytes other rest otherRest equal
  simp only [feed, List.append_assoc, List.append_cancel_left_eq] at equal
  obtain ⟨counted, remaining⟩ := List.append_inj equal (by simp [countBytes])
  obtain ⟨same, ended⟩ := List.append_inj remaining (countBytes_inj (Subtype.ext counted))
  exact ⟨Subtype.ext same, ended⟩

theorem feedAll_delimits (label : String) {write : α → List Byte} (delimits : Delimits write) :
    Delimits (feedAll label write) := by
  intro items others rest otherRest equal
  rw [feedAll, feedAll, List.append_assoc, List.append_assoc] at equal
  obtain ⟨counted, remaining⟩ := feed_delimits label _ _ _ _ equal
  obtain ⟨same, ended⟩ := delimits.list (countBytes_inj counted) remaining
  exact ⟨Subtype.ext same, ended⟩

theorem hex_injective : Function.Injective hex := by
  have digit : ∀ left < 16, ∀ right < 16, Nat.digitChar left = Nat.digitChar right →
      left = right := by decide
  have delimits : Delimits hexByte := by
    intro byte other rest otherRest equal
    obtain ⟨digits, ended⟩ := List.append_inj equal rfl
    simp only [hexByte, List.cons.injEq, and_true] at digits
    have high := digit _ (by omega) _ (by omega) digits.1
    have low := digit _ (by omega) _ (by omega) digits.2
    exact ⟨Fin.ext (by omega), ended⟩
  intro digest other equal
  exact Subtype.ext (delimits.list (digest.2.trans other.2.symm) (congrArg (· ++ []) equal)).1

/-- Sorted environments are equal when the environments are rearranged. -/
theorem CommandTuple.env_eq_iff {left right : CommandTuple} :
    left.env = right.env ↔ left.envDelta.1.Perm right.envDelta.1 := by
  have leftSorted := List.perm_insertionSort (· ≤ ·) left.envDelta.1
  have rightSorted := List.perm_insertionSort (· ≤ ·) right.envDelta.1
  rw [Subtype.ext_iff]
  constructor
  · intro same
    exact leftSorted.symm.trans ((List.Perm.of_eq same).trans rightSorted)
  · intro rearranged
    exact (leftSorted.trans (rearranged.trans rightSorted.symm)).eq_of_pairwise'
      (List.pairwise_insertionSort _ _) (List.pairwise_insertionSort _ _)

theorem CommandTuple.fed_eq_iff {left right : CommandTuple} :
    left.fed = right.fed ↔ left.surface = right.surface ∧ left.programAbs = right.programAbs ∧
      left.argv = right.argv ∧ left.envDelta.1.Perm right.envDelta.1 ∧ left.cwd = right.cwd := by
  have entries : Delimits fun entry : Slice Byte ×ₗ Slice Byte =>
      feed "envk" (ofLex entry).1 ++ feed "envv" (ofLex entry).2 :=
    (feed_delimits "envk").pair (feed_delimits "envv")
  have delimits := (feed_delimits "surface").pair ((feed_delimits "program").pair
    ((feedAll_delimits "argc" (feed_delimits "arg")).pair
      ((feedAll_delimits "envc" entries).pair (feed_delimits "cwd"))))
  rw [← env_eq_iff]
  apply (delimits.injective.eq_iff (a := (left.surface, left.programAbs, left.argv, left.env,
    left.cwd)) (b := (right.surface, right.programAbs, right.argv, right.env, right.cwd))).trans
  simp only [Prod.mk.injEq]

theorem labeledFed_eq_iff : labeledFed surface parts = labeledFed other otherParts ↔
    surface = other ∧ parts = otherParts := by
  have delimits := (feed_delimits "surface").pair
    (feedAll_delimits "partc" ((feed_delimits "label").pair (feed_delimits "part")))
  apply (delimits.injective.eq_iff (a := (surface, parts)) (b := (other, otherParts))).trans
  rw [Prod.mk.injEq]

/-- Fingerprints identify what they were made of, if no two of the streams that were
hashed have one digest: commands up to the order of the environment, and labelled
tuples, which no command is mistaken for. -/
theorem fingerprints_identify {streams : Set (List Byte)} (injective : streams.InjOn sha256) :
    (∀ left right : CommandTuple, left.fed ∈ streams → right.fed ∈ streams →
      (compute sha256 left = compute sha256 right ↔
        left.surface = right.surface ∧ left.programAbs = right.programAbs ∧
          left.argv = right.argv ∧ left.envDelta.1.Perm right.envDelta.1 ∧
          left.cwd = right.cwd)) ∧
    (∀ surface parts other otherParts, labeledFed surface parts ∈ streams →
      labeledFed other otherParts ∈ streams →
      (computeLabeled sha256 surface parts = computeLabeled sha256 other otherParts ↔
        surface = other ∧ parts = otherParts)) ∧
    ∀ (command : CommandTuple) surface parts, command.fed ∈ streams →
      labeledFed surface parts ∈ streams →
      compute sha256 command ≠ computeLabeled sha256 surface parts := by
  have digests : ∀ first ∈ streams, ∀ second ∈ streams,
      hex (sha256 first) = hex (sha256 second) ↔ first = second :=
    fun _ first _ second => hex_injective.eq_iff.trans (injective.eq_iff first second)
  refine ⟨?_, ?_, ?_⟩
  · intro left right leftHashed rightHashed
    exact (digests _ leftHashed _ rightHashed).trans CommandTuple.fed_eq_iff
  · intro surface parts other otherParts hashed otherHashed
    exact (digests _ hashed _ otherHashed).trans labeledFed_eq_iff
  · intro command surface parts hashed otherHashed
    rw [compute, computeLabeled, Ne, digests _ hashed _ otherHashed]
    intro equal
    have labels := (feed_delimits _ _ _ _ _ equal).2
    simp only [feed, feedAll, List.append_assoc] at labels
    exact absurd (List.append_inj labels (by simp)).1 (by decide +kernel)

/-- A slice of one byte. -/
def single (byte : Byte) : Slice Byte := ⟨[byte], by simp⟩

/-- A command with two variables in its environment, in one order or the other. -/
def twoVariables (swapped : Bool) : CommandTuple where
  surface := single 1
  programAbs := single 2
  argv := ⟨[single 3], by simp⟩
  envDelta :=
    if swapped then ⟨[toLex (single 5, single 6), toLex (single 4, single 6)], by simp⟩
    else ⟨[toLex (single 4, single 6), toLex (single 5, single 6)], by simp⟩
  cwd := single 7

/-- A labelled part. -/
def onePart : Slice (Slice Byte × Slice Byte) := ⟨[(single 2, single 3)], by simp⟩

/-- The two orders of an environment are one command, which is not a tuple with a part,
under a digest that counts bytes. -/
theorem fingerprints_identify_swapped :
    let digest : List Byte → Bytes 32 := fun bytes => .fill 32 (Fin.ofNat 256 bytes.length)
    compute digest (twoVariables false) = compute digest (twoVariables true) ∧
      compute digest (twoVariables false) ≠ computeLabeled digest (single 1) onePart := by
  intro digest
  have fed : (twoVariables true).fed = (twoVariables false).fed :=
    CommandTuple.fed_eq_iff.mpr ⟨rfl, rfl, rfl, .swap _ _ _, rfl⟩
  have injective : Set.InjOn digest {(twoVariables false).fed, labeledFed (single 1) onePart} :=
    Set.injOn_pair.mpr fun same => absurd same (by decide +kernel)
  obtain ⟨commands, _, apart⟩ := fingerprints_identify digest injective
  constructor
  · exact (commands _ _ (.inl rfl) (.inl fed)).mpr ⟨rfl, rfl, rfl, .swap _ _ _, rfl⟩
  · exact apart _ _ _ (.inl rfl) (.inr rfl)

end DaemonNode.Engine
