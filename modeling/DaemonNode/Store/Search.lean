import DaemonNode.Lib.Text
import DaemonNode.Store.Operations

/-!
# Search in the texts of sessions

A query is looked for in the lower-cased titles and bodies. The excerpt of a hit is taken
from the body as it was written, at the bytes where the match lies in the lower-cased one,
so the two must agree on the bytes of every character.
-/

namespace DaemonNode.SessionStore

open Text (partAt splitOnce size)

structure SessionSearchHit where
  sessionId : SessionId
  (title snippet : List Char)
  deriving DecidableEq

variable (lowercase : List Char → List Char)

/-- A found part in brackets, with up to 25 characters before it and 24 behind it. -/
def excerpt (front found back : List Char) : List Char :=
  let lead := if 25 < front.length then ['…'] else []
  let tail := if 24 < back.length then ['…'] else []
  lead ++ front.drop (front.length - 25) ++ '[' :: found ++ ']' :: (back.take 24 ++ tail)

/-- The excerpt around the first match; nothing where a cut in the body panics. -/
def snippetAround (body needle : List Char) : Option (List Char) :=
  match splitOnce needle (lowercase body) with
  | none => some (body.take 64)
  | some (before, _) => do
    let (front, rest) ← partAt Char.utf8Size (size Char.utf8Size before) body
    let (found, back) ← partAt Char.utf8Size (size Char.utf8Size needle) rest
    some (excerpt front found back)

def searchHit (needle : List Char) (entry : SessionId × List Char × List Char) :
    Option SessionSearchHit :=
  (snippetAround lowercase entry.2.2 needle).map fun text => ⟨entry.1, entry.2.1, text⟩

/-- The first entries with the needle in their title or body. -/
def matching
    (texts : List (SessionId × List Char × List Char))
    (needle : List Char)
    (limit : Nat) : List (SessionId × List Char × List Char) :=
  (texts.filter fun (_, title, body) =>
    needle <:+: lowercase title ∨ needle <:+: lowercase body).take (if limit = 0 then 50 else limit)

/-- The hits among the titles and bodies of sessions, in the order the map yields them. -/
def searchSessions (texts : List (SessionId × List Char × List Char)) (query : String)
    (limit : Nat) : Option (List SessionSearchHit) :=
  let needle := lowercase (Store.trim query).toList
  if needle = [] then some []
  else (matching lowercase texts needle limit).mapM (searchHit lowercase needle)

/-- A part of a body stands at the bytes where the needle first stands in the lower-cased body,
and lower-cases to the needle. -/
structure Located (body needle front found back : List Char) : Prop where
  first : ∃ before after, splitOnce needle (lowercase body) = some (before, after) ∧
    size Char.utf8Size front = size Char.utf8Size before
  parts : body = front ++ (found ++ back)
  length : size Char.utf8Size found = size Char.utf8Size needle
  lowered : lowercase found = needle

/-- A text whose parts are lower-cased character by character, each in as many bytes as before. -/
def LowersInPlace (body : List Char) : Prop :=
  ∃ lower : Char → Char, (∀ part, part <:+: body → lowercase part = part.map lower) ∧
    ∀ char, (lower char).utf8Size = char.utf8Size

/-- A hit for an entry; if the body has the needle, then in brackets a part that lower-cases to
it. -/
def Shows
    (needle : List Char)
    (entry : SessionId × List Char × List Char)
    (hit : SessionSearchHit) : Prop :=
  hit.sessionId = entry.1 ∧ hit.title = entry.2.1 ∧
    (needle <:+: lowercase entry.2.2 → ∃ front found back,
      Located lowercase entry.2.2 needle front found back ∧
        hit.snippet = excerpt front found back)

variable {lowercase}

/-- A body that lower-cases in place has the needle where its lower-casing has it. -/
theorem located_of_lowersInPlace
    (plain : LowersInPlace lowercase body)
    (nonempty : needle ≠ [])
    (inside : needle <:+: lowercase body) :
    ∃ front found back, Located lowercase body needle front found back := by
  obtain ⟨lower, lowered, sized⟩ := plain
  cases first : splitOnce needle (lowercase body) with
  | none => exact absurd inside (Text.not_infix_of_splitOnce nonempty first)
  | some parts =>
    obtain ⟨before, after⟩ := parts
    have whole := Text.of_splitOnce first
    rw [lowered body List.infix_rfl, List.map_eq_append_iff] at whole
    obtain ⟨front, rest, rfl, rfl, whole⟩ := whole
    obtain ⟨found, back, rfl, rfl, _⟩ := List.map_eq_append_iff.mp whole
    exact ⟨front, found, back, ⟨_, _, first, (Text.size_map sized front).symm⟩, rfl,
      (Text.size_map sized found).symm, lowered found ⟨front, back, List.append_assoc ..⟩⟩

theorem snippetAround_of_located
    (located : Located lowercase body needle front found back) :
    snippetAround lowercase body needle = some (excerpt front found back) := by
  obtain ⟨⟨before, after, first, start⟩, rfl, length, _⟩ := located
  rw [snippetAround, first]
  dsimp only
  rw [← start, ← length, Text.partAt_append Char.utf8Size_pos]
  dsimp only [Option.bind_eq_bind, Option.bind_some]
  rw [Text.partAt_append Char.utf8Size_pos]
  rfl

theorem snippetAround_of_absent (absent : ¬ needle <:+: lowercase body) :
    snippetAround lowercase body needle = some (body.take 64) := by
  have none : splitOnce needle (lowercase body) = none := by
    rw [Option.eq_none_iff_forall_ne_some]
    rintro ⟨before, after⟩ found
    exact absent ⟨before, after, by rw [Text.of_splitOnce found, List.append_assoc]⟩
  rw [snippetAround, none]

/-- Lower-casing where a dotted capital becomes two characters, of three bytes instead of two. -/
def lowercaseDotted (text : List Char) : List Char :=
  text.flatMap fun char => if char = 'İ' then ['i', '\u0307'] else [char.toLower]

end DaemonNode.SessionStore
