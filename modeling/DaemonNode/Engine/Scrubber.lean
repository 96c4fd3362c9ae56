import DaemonNode.Engine.ApiErrors

/-!
# The think scrubber

Models leak their reasoning into the text, between `<think>` tags.  The scrubber takes the
text apart into two channels while it arrives in chunks.  The end of a chunk that may be the
beginning of a tag is kept back until the next chunk decides what it is.
-/

namespace DaemonNode.Engine

structure ScrubChunk where
  text : List Char
  reasoning : List Char

structure StreamingThinkScrubber where
  buf : List Char
  inside : Bool

def openTags : List (List Char) := ["<think>".toList, "<thinking>".toList]

def closeTags : List (List Char) := ["</think>".toList, "</thinking>".toList]

inductive TagMatch
  | full (len : Nat)
  | incomplete
  | none

/-- A tag of the list that the text begins with, or that begins with the text. -/
def matchTag (rest : List Char) (tags : List (List Char)) : TagMatch :=
  let lower := toAsciiLowercase rest
  match tags.find? (· <+: lower) with
  | some tag => .full tag.length
  | none =>
    if ∃ tag ∈ tags, lower.length < tag.length ∧ lower <+: tag then .incomplete else .none

namespace ScrubChunk

instance : Append ScrubChunk :=
  ⟨fun front back => ⟨front.text ++ back.text, front.reasoning ++ back.reasoning⟩⟩

def route (inside : Bool) (part : List Char) : ScrubChunk :=
  if inside then ⟨[], part⟩ else ⟨part, []⟩

/-- What came out earlier stands in front. -/
def before (out : ScrubChunk) (result : StreamingThinkScrubber × ScrubChunk) :
    StreamingThinkScrubber × ScrubChunk :=
  (result.1, out ++ result.2)

theorem append_assoc (first second third : ScrubChunk) :
    first ++ second ++ third = first ++ (second ++ third) :=
  congrArg₂ mk (List.append_assoc _ _ _) (List.append_assoc _ _ _)

theorem before_before
    (first second : ScrubChunk)
    (result : StreamingThinkScrubber × ScrubChunk) :
    before first (before second result) = before (first ++ second) result :=
  congrArg (Prod.mk result.1) (append_assoc first second result.2).symm

theorem route_append
    (inside : Bool)
    (front back : List Char) :
    route inside (front ++ back) = route inside front ++ route inside back := by
  cases inside with
  | false | true => rfl

theorem route_nil_append
    (inside : Bool)
    (out : ScrubChunk) :
    route inside [] ++ out = out := by
  cases inside with
  | false | true => rfl

end ScrubChunk

open ScrubChunk

/-- The tags that end the present channel. -/
def tagsOf (inside : Bool) : List (List Char) :=
  if inside then closeTags else openTags

theorem tagsOf_ne_nil : ∀ inside, ∀ tag ∈ tagsOf inside, tag ≠ [] := by decide +kernel

theorem tagsOf_prefixFree :
    ∀ inside, ∀ tag ∈ tagsOf inside, ∀ other ∈ tagsOf inside, tag <+: other → tag = other := by
  decide +kernel

theorem found_tag {tags : List (List Char)} {lower tag : List Char}
    (found : tags.find? (· <+: lower) = some tag) : tag ∈ tags ∧ tag <+: lower := by
  have begins := List.find?_some found
  exact ⟨List.mem_of_find?_eq_some found, of_decide_eq_true begins⟩

theorem matchTag_full (matched : matchTag rest tags = .full len) :
    ∃ tag ∈ tags, tag <+: toAsciiLowercase rest ∧ tag.length = len := by
  cases found : tags.find? (· <+: toAsciiLowercase rest) with
  | none =>
    simp only [matchTag, found] at matched
    split_ifs at matched
  | some tag =>
    simp only [matchTag, found, TagMatch.full.injEq] at matched
    exact ⟨tag, (found_tag found).1, (found_tag found).2, matched⟩

/-- Scans the buffer to its end, or to what may be the beginning of a tag.  The text before a `<`,
which the source routes at once, is routed character by character. -/
def drain (finalFlush inside : Bool) : List Char → StreamingThinkScrubber × ScrubChunk
  | [] => (⟨[], inside⟩, route inside [])
  | first :: rest =>
    if first = '<' then
      match matchTag (first :: rest) (tagsOf inside) with
      -- the tag, which has a first character, is left out
      | .full len => drain finalFlush (!inside) (rest.drop (len - 1))
      | .incomplete =>
        if finalFlush then (⟨[], inside⟩, route inside (first :: rest))
        else (⟨first :: rest, inside⟩, route inside [])
      | .none => before (route inside [first]) (drain finalFlush inside rest)
    else before (route inside [first]) (drain finalFlush inside rest)
termination_by buf => buf.length
decreasing_by
  · rw [List.length_drop]
    exact Nat.lt_succ_of_le (Nat.sub_le _ _)
  · exact Nat.lt_succ_self _
  · exact Nat.lt_succ_self _

namespace StreamingThinkScrubber

def push (scrubber : StreamingThinkScrubber) (chunk : List Char) :
    StreamingThinkScrubber × ScrubChunk :=
  drain false scrubber.inside (scrubber.buf ++ chunk)

def finish (scrubber : StreamingThinkScrubber) : StreamingThinkScrubber × ScrubChunk :=
  drain true scrubber.inside scrubber.buf

/-- All chunks of a stream, up to its end. -/
def scrub : StreamingThinkScrubber → List (List Char) → ScrubChunk
  | scrubber, [] => scrubber.finish.2
  | scrubber, chunk :: chunks =>
    let (scrubber, out) := scrubber.push chunk
    out ++ scrubber.scrub chunks

end StreamingThinkScrubber

def scrubContent (text : List Char) : ScrubChunk :=
  let (scrubber, out) := StreamingThinkScrubber.push ⟨[], false⟩ text
  out ++ scrubber.finish.2

theorem toAsciiLowercase_begins (rest more : List Char) :
    toAsciiLowercase rest <+: toAsciiLowercase (rest ++ more) :=
  ⟨toAsciiLowercase more, List.map_append.symm⟩

/-- A whole tag is the same one, whatever follows: no tag is the beginning of another. -/
theorem matchTag_full_append
    (matched : matchTag rest (tagsOf inside) = .full len)
    (more : List Char) :
    matchTag (rest ++ more) (tagsOf inside) = .full len := by
  obtain ⟨tag, member, begins, rfl⟩ := matchTag_full matched
  have longer := begins.trans (toAsciiLowercase_begins rest more)
  cases found : (tagsOf inside).find? (· <+: toAsciiLowercase (rest ++ more)) with
  | none => exact absurd (decide_eq_true longer) (List.find?_eq_none.mp found tag member)
  | some other =>
    obtain ⟨listed, also⟩ := found_tag found
    have same : other = tag := by
      rcases List.prefix_or_prefix_of_prefix also longer with shorter | shorter
      · exact tagsOf_prefixFree inside other listed tag member shorter
      · exact (tagsOf_prefixFree inside tag member other listed shorter).symm
    simp only [matchTag, found, same]

theorem matchTag_none_iff : matchTag rest tags = .none ↔
    ∀ tag ∈ tags, ¬ tag <+: toAsciiLowercase rest ∧ ¬ toAsciiLowercase rest <+: tag := by
  cases found : tags.find? (· <+: toAsciiLowercase rest) with
  | some tag =>
    simp only [matchTag, found, reduceCtorEq, false_iff]
    exact fun apart => (apart tag (found_tag found).1).1 (found_tag found).2
  | none =>
    have absent := List.find?_eq_none.mp found
    simp only [decide_eq_true_eq] at absent
    simp only [matchTag, found, ite_eq_right_iff, reduceCtorEq, imp_false]
    constructor
    · intro unbegun tag member
      refine ⟨absent tag member, fun begins => unbegun ⟨tag, member, ?_, begins⟩⟩
      exact begins.length_le.lt_of_ne fun same =>
        absent tag member (begins.eq_of_length same ▸ List.prefix_rfl)
    · rintro apart ⟨tag, member, _, begins⟩
      exact (apart tag member).2 begins

/-- What is no tag and no beginning of one stays none, whatever follows. -/
theorem matchTag_none_append
    (matched : matchTag rest tags = .none)
    (more : List Char) :
    matchTag (rest ++ more) tags = .none := by
  have lowered := toAsciiLowercase_begins rest more
  rw [matchTag_none_iff] at matched ⊢
  intro tag member
  obtain ⟨differs, apart⟩ := matched tag member
  refine ⟨fun begins => ?_, fun begins => apart (lowered.trans begins)⟩
  exact (List.prefix_or_prefix_of_prefix begins lowered).elim differs apart

/-- A buffer in parts: what a part leaves is scanned with the next. -/
theorem drain_append
    (finalFlush inside : Bool)
    (buf more : List Char) :
    drain finalFlush inside (buf ++ more) =
      before (drain false inside buf).2 (drain finalFlush (drain false inside buf).1.inside
        ((drain false inside buf).1.buf ++ more)) := by
  fun_induction drain false inside buf with
  | case1 inside => rw [List.nil_append, before, route_nil_append]
  | case2 inside rest len matched ih =>
    obtain ⟨tag, _, begins, rfl⟩ := matchTag_full matched
    have fits := begins.length_le
    rw [toAsciiLowercase, List.length_map, List.length_cons] at fits
    rw [← ih, ← List.drop_append_of_le_length (Nat.sub_le_of_le_add fits), List.cons_append,
      drain, if_pos rfl, ← List.cons_append, matchTag_full_append matched]
  | case3 inside rest flush matched => cases flush
  | case4 inside rest flush matched => rw [before, route_nil_append]
  | case5 inside rest matched ih =>
    rw [List.cons_append, drain, if_pos rfl, ← List.cons_append, matchTag_none_append matched]
    exact (congrArg _ ih).trans (before_before _ _ _)
  | case6 inside first rest plain ih =>
    rw [List.cons_append, drain, if_neg plain]
    exact (congrArg _ ih).trans (before_before _ _ _)

theorem scrub_eq_drain
    (scrubber : StreamingThinkScrubber)
    (chunks : List (List Char)) :
    scrubber.scrub chunks =
      (drain true scrubber.inside (scrubber.buf ++ chunks.flatten)).2 := by
  induction chunks generalizing scrubber with
  | nil =>
    rw [List.flatten_nil, List.append_nil]
    rfl
  | cons chunk chunks ih =>
    rw [List.flatten_cons, ← List.append_assoc, drain_append]
    exact congrArg ((scrubber.push chunk).2 ++ ·) (ih (scrubber.push chunk).1)

/-- A text is what two channels and the tags that change them are made of. -/
inductive Interleaved : Bool → List Char → ScrubChunk → Prop
  | done {inside : Bool} : Interleaved inside [] (route inside [])
  | routed {inside : Bool} {rest : List Char} {out : ScrubChunk} (part : List Char) :
      Interleaved inside rest out → Interleaved inside (part ++ rest) (route inside part ++ out)
  | tag {inside : Bool} {tag rest : List Char} {out : ScrubChunk} :
      toAsciiLowercase tag ∈ tagsOf inside → Interleaved (!inside) rest out →
      Interleaved inside (tag ++ rest) out

theorem interleaved_drain
    (inside : Bool)
    (buf : List Char) :
    Interleaved inside buf (drain true inside buf).2 := by
  fun_induction drain true inside buf with
  | case1 inside => exact .done
  | case2 inside rest len matched ih =>
    obtain ⟨tag, member, begins, rfl⟩ := matchTag_full matched
    have consumed : toAsciiLowercase (('<' :: rest).take tag.length) = tag := by
      rw [toAsciiLowercase, List.map_take]
      exact (List.prefix_iff_eq_take.mp begins).symm
    rw [← List.take_append_drop tag.length ('<' :: rest),
      List.drop_cons (List.length_pos_of_ne_nil (tagsOf_ne_nil inside tag member))]
    apply Interleaved.tag _ ih
    rw [consumed]
    exact member
  | case3 inside rest flush matched =>
    have whole := (@Interleaved.done inside).routed ('<' :: rest)
    rw [← route_append, List.append_nil] at whole
    exact whole
  | case4 inside rest flush matched => exact absurd rfl flush
  | case5 inside rest matched ih => exact ih.routed ['<']
  | case6 inside first rest plain ih => exact ih.routed [first]

/-- The channels of a stream do not depend on its chunks, and nothing of it is lost, repeated
or moved. -/
theorem scrub_chunks (chunks : List (List Char)) :
    StreamingThinkScrubber.scrub ⟨[], false⟩ chunks = scrubContent chunks.flatten ∧
      Interleaved false chunks.flatten (scrubContent chunks.flatten) := by
  have whole : scrubContent chunks.flatten = (drain true false chunks.flatten).2 :=
    (scrub_eq_drain ⟨[], false⟩ [chunks.flatten]).trans (by simp)
  rw [whole]
  exact ⟨scrub_eq_drain ⟨[], false⟩ chunks, interleaved_drain false chunks.flatten⟩

end DaemonNode.Engine
