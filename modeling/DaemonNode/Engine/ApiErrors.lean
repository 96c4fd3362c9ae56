import DaemonNode.Engine.Fence
import DaemonNode.Store.Operations

/-!
# Errors of a provider

An error response becomes a failure by its status and, where the provider refused the
request, by what its body mentions. The failure carries the beginning of the body on one
line. That line is cut at a number of bytes, so a character that lies across the cut
stops the engine.
-/

namespace DaemonNode.Engine

open SessionStore.Store (isWhitespace)

inductive Failure
  | provider (message : List Char)
  | rateLimit (retryAfter : Option Nat) (message : List Char)
  | auth (message : List Char)
  | billing (message : List Char)
  | payloadTooLarge (message : List Char)
  | contextOverflow (message : List Char)
  | contentPolicy (message : List Char)
  | invalidRequest (message : List Char)
  | transientTransport (message : List Char)
  | providerOverloaded (message : List Char)
  deriving DecidableEq, Repr

def Failure.message : Failure → List Char
  | provider message | rateLimit _ message | auth message | billing message
  | payloadTooLarge message | contextOverflow message | contentPolicy message
  | invalidRequest message | transientTransport message | providerOverloaded message => message

def trimWhitespace (text : List Char) : List Char :=
  (text.dropWhile isWhitespace).rdropWhile isWhitespace

/-- What a digit or a letter counts for as a digit. -/
def digitValue (char : Char) : Option Nat :=
  let code := char.toNat
  if 48 ≤ code ∧ code ≤ 57 then some (code - 48)
  else if 97 ≤ code ∧ code ≤ 122 then some (code - 87)
  else if 65 ≤ code ∧ code ≤ 90 then some (code - 55)
  else none

def toDigit (radix : Nat) (char : Char) : Option Nat :=
  (digitValue char).filter (· < radix)

def isDigit (radix : Nat) (char : Char) : Bool :=
  (toDigit radix char).isSome

def toAsciiLowercase (text : List Char) : List Char :=
  text.map Char.toLower

/-- The value of a run of digits. -/
def numeral (radix : Nat) (digits : List Char) : Nat :=
  digits.foldl (fun value digit => value * radix + (toDigit radix digit).getD 0) 0

/-- The seconds of a header, which fit in 64 bits. -/
def parseRetryAfter (value : List Char) : Option Nat :=
  let digits := match trimWhitespace value with
    | '+' :: digits | digits => digits
  if digits ≠ [] ∧ digits.all (isDigit 10) ∧ numeral 10 digits < 2 ^ 64 then
    some (numeral 10 digits)
  else none

def mentionsContextOverflow (lower : List Char) : Bool :=
  ["context length", "maximum context", "context_length_exceeded", "too many tokens",
    "prompt is too long", "reduce the length"].any (·.toList <:+: lower)

def mentionsContentPolicy (lower : List Char) : Bool :=
  ["content_policy", "content policy", "content_filter", "safety"].any (·.toList <:+: lower)

/-- The words of a text with one blank between them. -/
def oneLine (body : List Char) : List Char :=
  [' '].intercalate ((body.splitOnP isWhitespace).filter (· ≠ []))

/-- The line of a body, cut at 200 bytes; nothing where the cut panics. -/
def snippet (body : List Char) : Option (List Char) :=
  if 200 < bytes (oneLine body) then
    (Text.partAt Char.utf8Size 200 (oneLine body)).map (·.1 ++ ['…'])
  else some (oneLine body)

/-- What stands before the snippet of a response whose status says nothing. -/
def fallbackLead (status : Nat) : List Char :=
  s!"http {status}: ".toList

/-- The failure of a response; nothing where its snippet panics. -/
def classifyApiError (status : Nat) (header : String → Option (List Char)) (body : List Char) :
    Option Failure :=
  (snippet body).map fun message => match status with
    | 429 => .rateLimit ((header "retry-after").bind parseRetryAfter) message
    | 401 | 403 => .auth message
    | 402 => .billing message
    | 413 => .payloadTooLarge message
    | 400 | 422 =>
      if mentionsContextOverflow (toAsciiLowercase body) then .contextOverflow message
      else if mentionsContentPolicy (toAsciiLowercase body) then .contentPolicy message
      else .invalidRequest message
    | 408 | 409 | 425 => .transientTransport message
    | 503 | 529 => .providerOverloaded message
    | 500 | 502 | 504 => .transientTransport message
    | status =>
      if 500 ≤ status ∧ status < 600 then .providerOverloaded message
      else .provider (fallbackLead status ++ message)

theorem snippet_eq_none_iff :
    snippet body = none ↔
      200 < bytes (oneLine body) ∧ ∀ front, front <+: oneLine body → bytes front ≠ 200 := by
  unfold snippet
  split
  · rename_i long
    rw [Option.map_eq_none_iff, and_iff_right long]
    constructor
    · rintro panics front ⟨back, line⟩ exact
      rw [← line, ← exact] at panics
      cases panics.symm.trans (Text.partAt_append Char.utf8Size_pos front back)
    · intro inside
      cases parted : Text.partAt Char.utf8Size 200 (oneLine body) with
      | none => rfl
      | some parts =>
        obtain ⟨line, exact⟩ := Text.of_partAt parted
        exact absurd exact (inside parts.1 (line ▸ List.prefix_append _ _))
  · simp_all

/-- Whether a branch of the classification names the status. -/
def isNamedStatus (status : Nat) : Bool :=
  (500 ≤ status && status < 600) ||
    [400, 401, 402, 403, 408, 409, 413, 422, 425, 429].contains status

/-- A message is the beginning of a line in at most 200 bytes, with at most one ellipsis. -/
def Excerpt (line message : List Char) : Prop :=
  ∃ front mark, message = front ++ mark ∧ front <+: line ∧ bytes front ≤ 200 ∧
    (mark = [] ∨ mark = ['…'])

theorem snippet_excerpt (cut : snippet body = some message) :
    Excerpt (oneLine body) message := by
  unfold snippet at cut
  split at cut
  · obtain ⟨⟨front, back⟩, parted, rfl⟩ := Option.map_eq_some_iff.mp cut
    obtain ⟨line, exact⟩ := Text.of_partAt parted
    exact ⟨front, ['…'], rfl, line ▸ List.prefix_append _ _, exact.le, .inr rfl⟩
  · cases cut
    exact ⟨oneLine body, [], (List.append_nil _).symm, List.prefix_refl _, by omega, .inl rfl⟩

/-- No excerpt is longer than the snippet by more than an ellipsis. -/
theorem Excerpt.bytes_le (excerpt : Excerpt (oneLine body) text)
    (cut : snippet body = some message) : bytes text ≤ bytes message + 3 := by
  obtain ⟨front, mark, rfl, ⟨rest, line⟩, short, marked⟩ := excerpt
  have ellipsis : bytes mark ≤ 3 := by
    rcases marked with rfl | rfl <;> decide
  have total := congrArg bytes line
  rw [bytes, Text.size_append] at total
  rw [bytes, Text.size_append]
  unfold snippet at cut
  split at cut
  · obtain ⟨⟨front, back⟩, parted, rfl⟩ := Option.map_eq_some_iff.mp cut
    have exact := (Text.of_partAt parted).2
    rw [bytes, Text.size_append]
    simp only [bytes] at *
    omega
  · cases cut
    simp only [bytes] at *
    omega

/-- The status before a message makes it longer than any excerpt. -/
theorem three_lt_bytes_fallbackLead (status : Nat) : 3 < bytes (fallbackLead status) := by
  have opening : bytes "http ".toList = 5 := by decide
  have split : fallbackLead status = "http ".toList ++ (toString status ++ ": ").toList := by
    change ("http " ++ toString status ++ ": ").toList = _
    rw [String.append_assoc, String.toList_append]
  rw [split]
  simp only [bytes, Text.size_append] at *
  omega

theorem classified_message {failure : Failure}
    (classified : classifyApiError status header body = some failure) :
    ∃ message, snippet body = some message ∧ failure.message =
      (if isNamedStatus status then [] else fallbackLead status) ++ message := by
  obtain ⟨message, cut, rfl⟩ := Option.map_eq_some_iff.mp classified
  refine ⟨message, cut, ?_⟩
  split
  case h_16 =>
    split
    · rename_i server
      rw [if_pos (by simp [isNamedStatus, server])]
      rfl
    · rename_i server
      rw [if_neg (by simp_all [isNamedStatus])]
      rfl
  all_goals
    repeat' split
    all_goals first
      | rfl
      | simp_all [isNamedStatus]

/--
A response is classified unless its line is longer than 200 bytes and byte 200 of it is inside
a character, and its message is an excerpt of the line, behind the status when no branch names
that. So the message is an excerpt exactly for a named status and a line that is cut between
characters.
-/
theorem classifyApiError_spec (status : Nat) (header : String → Option (List Char))
    (body : List Char) :
    (classifyApiError status header body = none ↔
      200 < bytes (oneLine body) ∧ ∀ front, front <+: oneLine body → bytes front ≠ 200) ∧
    (∀ failure ∈ classifyApiError status header body, ∃ message,
      Excerpt (oneLine body) message ∧ failure.message =
        (if isNamedStatus status then [] else fallbackLead status) ++ message) ∧
    ((∃ failure ∈ classifyApiError status header body,
        Excerpt (oneLine body) failure.message) ↔
      isNamedStatus status = true ∧
        (200 < bytes (oneLine body) → ∃ front, front <+: oneLine body ∧ bytes front = 200)) := by
  have panics : classifyApiError status header body = none ↔
      200 < bytes (oneLine body) ∧ ∀ front, front <+: oneLine body → bytes front ≠ 200 := by
    rw [classifyApiError, Option.map_eq_none_iff, snippet_eq_none_iff]
  refine ⟨panics, ?_, ?_, ?_⟩
  · intro failure classified
    obtain ⟨message, cut, shown⟩ := classified_message classified
    exact ⟨message, snippet_excerpt cut, shown⟩
  · rintro ⟨failure, classified, excerpt⟩
    obtain ⟨message, cut, shown⟩ := classified_message classified
    refine ⟨?_, fun long => ?_⟩
    · by_contra unnamed
      have longer := three_lt_bytes_fallbackLead status
      have bounded := excerpt.bytes_le cut
      rw [shown, if_neg unnamed, bytes, Text.size_append] at bounded
      simp only [bytes] at *
      omega
    · by_contra inside
      rw [panics.mpr ⟨long, fun front begins exact => inside ⟨front, begins, exact⟩⟩] at classified
      cases classified
  · rintro ⟨named, between⟩
    cases classified : classifyApiError status header body with
    | none =>
      obtain ⟨long, inside⟩ := panics.mp classified
      obtain ⟨front, begins, exact⟩ := between long
      exact absurd exact (inside front begins)
    | some failure =>
      obtain ⟨message, cut, shown⟩ := classified_message classified
      rw [if_pos named] at shown
      exact ⟨failure, rfl, shown ▸ snippet_excerpt cut⟩

theorem classifyApiError_spec_gone :
    (∃ failure ∈ classifyApiError 500 (fun _ => none) "gone".toList,
        Excerpt (oneLine "gone".toList) failure.message) ∧
      ¬ ∃ failure ∈ classifyApiError 404 (fun _ => none) "gone".toList,
        Excerpt (oneLine "gone".toList) failure.message :=
  ⟨(classifyApiError_spec 500 _ _).2.2.mpr ⟨by decide, fun long => absurd long (by decide +kernel)⟩,
    fun shown => absurd ((classifyApiError_spec 404 _ _).2.2.mp shown).1 (by decide)⟩

/-- A two-byte character behind 199 bytes panics; an unknown status stands before the body. -/
theorem classifyApiError_panics :
    classifyApiError 500 (fun _ => none) (List.replicate 199 'a' ++ ['é']) = none ∧
      classifyApiError 404 (fun _ => none) "gone".toList =
        some (.provider "http 404: gone".toList) := by
  decide +kernel

end DaemonNode.Engine
