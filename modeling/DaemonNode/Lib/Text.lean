import Mathlib.Data.List.DropRight
import Mathlib.Data.List.Infix

/-!
# Markers, replacement and cuts in texts

A text is a list of characters of any kind. A marker is a text that other texts
should not contain. Replacing every occurrence of a pattern leaves no marker behind
when the text put in its place cannot overlap the marker, and texts that are joined
by a character that is not in the marker contain it only if one of them does.

A text is cut at a size, the sum of what its characters weigh: the longest part from
the front that stays within the size, or what remains once at least the size is gone.
-/

namespace Text

open List (mem_cons_self suffix_refl cons_append suffix_append prefix_append suffix_cons mem_tails)

universe u

section Markers

variable {α : Type u}

/-- A marker in two texts joined by a character it does not contain is in one of them. -/
theorem infix_join (absent : joint ∉ marker) :
    marker <:+: left ++ joint :: right ↔ marker <:+: left ∨ marker <:+: right := by
  constructor
  · intro found
    rcases List.infix_append_iff.mp found with inLeft | inRight | ⟨front, back, rfl, ends, begins⟩
    · exact .inl inLeft
    · rcases List.infix_cons_iff.mp inRight with begins | inRight
      · rcases List.prefix_cons_iff.mp begins with rfl | ⟨rest, rfl, _⟩
        · exact .inl List.nil_infix
        · exact absurd mem_cons_self absent
      · exact .inr inRight
    · rcases List.prefix_cons_iff.mp begins with rfl | ⟨rest, rfl, _⟩
      · rw [List.append_nil]
        exact .inl ends.isInfix
      · exact absurd (List.mem_append_right front mem_cons_self) absent
  · rintro (inLeft | inRight)
    · exact inLeft.trans (prefix_append left (joint :: right)).isInfix
    · exact inRight.trans
        ((suffix_cons joint right).trans (suffix_append left (joint :: right))).isInfix

/-- A marker at the front of a joined text is at the front of its first part. -/
theorem prefix_join (absent : joint ∉ marker) (begins : marker <+: left ++ joint :: right) :
    marker <+: left := by
  have joined : left ++ joint :: right = (left ++ [joint]) ++ right := by simp
  rw [joined] at begins
  rcases List.prefix_or_prefix_of_prefix begins (prefix_append (left ++ [joint]) right) with
    inside | past
  · rcases List.prefix_concat_iff.mp inside with rfl | inside
    · exact absurd (List.mem_append_right left mem_cons_self) absent
    · exact inside
  · exact absurd (past.mem (List.mem_append_right left mem_cons_self)) absent

/-- A marker at the end of a joined text is at the end of its last part. -/
theorem suffix_join (absent : joint ∉ marker) (ends : marker <:+ left ++ joint :: right) :
    marker <:+ right := by
  rcases List.suffix_or_suffix_of_suffix ends (suffix_append left (joint :: right)) with
    within | beyond
  · rcases List.suffix_cons_iff.mp within with rfl | within
    · exact absurd mem_cons_self absent
    · exact within
  · exact absurd (beyond.mem mem_cons_self) absent

/-- A character is not in a text that is written out without it. -/
theorem not_mem_toList (absent : character ∉ text) : character ∉ (String.ofList text).toList := by
  rwa [String.toList_ofList]

/-- A marker is not in a text that lacks one of its characters. -/
theorem not_infix_of_not_mem (inMarker : character ∈ marker) (absent : character ∉ left) :
    ¬ marker <:+: left :=
  fun found => absent (found.mem inMarker)

end Markers

section Fences

variable {α : Type u}

/-- A text between two markers, neither of which stands in it. -/
def Fenced (opening closing text : List α) : Prop :=
  ∃ middle, text = opening ++ middle ++ closing ∧ ¬ opening <:+: middle ∧ ¬ closing <:+: middle

theorem between_injective (opening closing : List α)
    (same : opening ++ first ++ closing = opening ++ second ++ closing) : first = second :=
  List.append_cancel_left (List.append_cancel_right same)

theorem Fenced.closes (fenced : Fenced opening closing text) : closing <:+ text := by
  obtain ⟨middle, rfl, _⟩ := fenced
  exact suffix_append (opening ++ middle) closing

/--
When the middle of a fenced text gives way to a notice on lines of its own, the rest
is fenced exactly if it still has both markers and the notice has none.
-/
theorem Fenced.preview_iff (fenced : Fenced opening closing text) (cut : text = head ++ gap ++ tail)
    (notOpening : joint ∉ opening) (notClosing : joint ∉ closing) :
    Fenced opening closing (head ++ joint :: (notice ++ joint :: tail)) ↔
      opening <+: head ∧ closing <:+ tail ∧ ¬ opening <:+: notice ∧ ¬ closing <:+: notice := by
  obtain ⟨middle, rfl, unopened, unclosed⟩ := fenced
  constructor
  · rintro ⟨inside, shape, clearOpening, clearClosing⟩
    have begins : opening <+: head := by
      apply prefix_join notOpening
      rw [shape, List.append_assoc]
      exact prefix_append opening _
    have ends : closing <:+ tail := by
      apply suffix_join notClosing
      apply suffix_join notClosing
      rw [shape]
      exact suffix_append _ closing
    obtain ⟨front, rfl⟩ := begins
    obtain ⟨back, rfl⟩ := ends
    have whole : inside = front ++ joint :: (notice ++ joint :: back) := by
      apply between_injective opening closing
      rw [← shape]
      simp
    rw [whole, infix_join notOpening, infix_join notOpening] at clearOpening
    rw [whole, infix_join notClosing, infix_join notClosing] at clearClosing
    exact ⟨prefix_append opening front, suffix_append back closing,
      fun found => clearOpening (.inr (.inl found)), fun found => clearClosing (.inr (.inl found))⟩
  · rintro ⟨⟨front, rfl⟩, ⟨back, rfl⟩, clearOpening, clearClosing⟩
    have whole : middle = front ++ gap ++ back := by
      apply between_injective opening closing
      rw [cut]
      simp
    have inFront : front <:+: middle := ⟨[], gap ++ back, by simp [whole]⟩
    have inBack : back <:+: middle := ⟨front ++ gap, [], by simp [whole]⟩
    refine ⟨front ++ joint :: (notice ++ joint :: back), by simp, ?_, ?_⟩
    · rw [infix_join notOpening, infix_join notOpening]
      rintro (found | found | found)
      · exact unopened (found.trans inFront)
      · exact clearOpening found
      · exact unopened (found.trans inBack)
    · rw [infix_join notClosing, infix_join notClosing]
      rintro (found | found | found)
      · exact unclosed (found.trans inFront)
      · exact clearClosing found
      · exact unclosed (found.trans inBack)

end Fences

section Replacement

variable {α : Type u}

/--
A marker cannot overlap a text: no part at the end of one is, or goes on as, the
beginning of the other, and neither contains the other.
-/
structure Apart (marker text : List α) : Prop where
  ahead : ∀ part, part <:+ marker → part ≠ [] → ¬ part <+: text ∧ ¬ text <+: part
  behind : ∀ part, part <:+ text → part ≠ [] → ¬ marker <+: part ∧ ¬ part <+: marker

/-- A marker that begins or crosses into a text it cannot overlap lies behind that text. -/
theorem Apart.infix_of_infix_append (apart : Apart marker text) (nonempty : marker ≠ [])
    (found : marker <:+: text ++ rest) : marker <:+: rest := by
  rcases List.infix_append_iff.mp found with inText | inRest | ⟨front, back, rfl, ends, begins⟩
  · obtain ⟨part, begins, ends⟩ := List.infix_iff_prefix_suffix.mp inText
    have filled : part ≠ [] := by
      rintro rfl
      exact nonempty (List.prefix_nil.mp begins)
    exact absurd begins (apart.behind part ends filled).1
  · exact inRest
  · by_cases empty : front = []
    · rw [empty, List.nil_append]
      exact begins.isInfix
    · exact absurd (prefix_append front back) (apart.behind front ends empty).2

variable [DecidableEq α]

instance Apart.decidable (marker text : List α) : Decidable (Apart marker text) :=
  decidable_of_iff
    ((∀ part ∈ marker.tails, part ≠ [] → ¬ part <+: text ∧ ¬ text <+: part) ∧
      ∀ part ∈ text.tails, part ≠ [] → ¬ marker <+: part ∧ ¬ part <+: marker)
    ⟨fun ⟨ahead, behind⟩ =>
        ⟨fun part ends => ahead part ((mem_tails part marker).mpr ends),
          fun part ends => behind part ((mem_tails part text).mpr ends)⟩,
      fun apart =>
        ⟨fun part ends => apart.ahead part ((mem_tails part marker).mp ends),
          fun part ends => apart.behind part ((mem_tails part text).mp ends)⟩⟩

/-- Every occurrence of a pattern, from the front and without overlaps, replaced. -/
def replace (pattern substitute : List α) : List α → List α
  | [] => []
  | first :: rest =>
    if pattern <+: first :: rest then
      substitute ++ replace pattern substitute (rest.drop (pattern.length - 1))
    else first :: replace pattern substitute rest
termination_by text => text.length
decreasing_by
  · rw [List.length_drop, List.length_cons]
    omega
  · rw [List.length_cons]
    omega

variable {marker pattern substitute : List α}

theorem replace_miss (differs : ¬ pattern <+: first :: rest) :
    replace pattern substitute (first :: rest) = first :: replace pattern substitute rest := by
  rw [replace, if_neg differs]

/-- What of a marker begins a text after a replacement began it before. -/
theorem Apart.prefix_of_prefix_replace (apart : Apart marker substitute) (ends : part <:+ marker)
    (begins : part <+: replace pattern substitute text) :
    part <+: text := by
  induction text generalizing part with
  | nil =>
    rw [replace] at begins
    exact begins
  | cons first rest unchanged =>
    by_cases empty : part = []
    · rw [empty]
      exact List.nil_prefix
    by_cases hit : pattern <+: first :: rest
    · -- the text now begins with the substitute, which no part of the marker can meet
      rw [replace, if_pos hit] at begins
      have incomparable := apart.ahead part ends empty
      rcases List.prefix_or_prefix_of_prefix begins (prefix_append _ _) with
        within | beyond
      · exact absurd within incomparable.1
      · exact absurd beyond incomparable.2
    · rw [replace_miss hit] at begins
      obtain rfl | ⟨others, rfl, onward⟩ := List.prefix_cons_iff.mp begins
      · exact absurd rfl empty
      · have shorter := (suffix_cons first others).trans ends
        exact List.cons_prefix_cons.mpr ⟨rfl, unchanged shorter onward⟩

/-- A replacement whose substitute cannot overlap a marker does not bring it in. -/
theorem Apart.infix_of_infix_replace (apart : Apart marker substitute) (nonempty : marker ≠ [])
    (found : marker <:+: replace pattern substitute text) :
    marker <:+: text := by
  fun_induction replace pattern substitute text with
  | case1 => exact found
  | case2 first rest _ earlier =>
    have later := earlier (apart.infix_of_infix_append nonempty found)
    exact later.trans ((List.drop_suffix _ rest).trans (suffix_cons first rest)).isInfix
  | case3 first rest differs earlier =>
    rcases List.infix_cons_iff.mp found with begins | inRest
    · rw [← replace_miss differs] at begins
      exact (apart.prefix_of_prefix_replace (suffix_refl marker) begins).isInfix
    · exact (earlier inRest).trans (suffix_cons first rest).isInfix

/-- Nothing of a pattern is left once it is replaced by a text it cannot overlap. -/
theorem Apart.not_infix_replace (apart : Apart pattern substitute) (nonempty : pattern ≠ [])
    (text : List α) : ¬ pattern <:+: replace pattern substitute text := by
  fun_induction replace pattern substitute text with
  | case1 => exact fun found => nonempty (List.infix_nil.mp found)
  | case2 first rest _ gone => exact fun found => gone (apart.infix_of_infix_append nonempty found)
  | case3 first rest differs gone =>
    intro found
    rcases List.infix_cons_iff.mp found with begins | inRest
    · rw [← replace_miss differs] at begins
      exact differs (apart.prefix_of_prefix_replace (suffix_refl pattern) begins)
    · exact gone inRest

end Replacement

section Splits

variable {α : Type u} [DecidableEq α]

/-- The texts before and after the first occurrence of a pattern. -/
def splitOnce (pattern : List α) : List α → Option (List α × List α)
  | [] => none
  | first :: rest =>
    if pattern <+: first :: rest then some ([], (first :: rest).drop pattern.length)
    else (splitOnce pattern rest).map fun (before, after) => (first :: before, after)

variable {before after : List α}

theorem of_splitOnce (found : splitOnce pattern text = some (before, after)) :
    text = before ++ (pattern ++ after) := by
  fun_induction splitOnce pattern text generalizing before with
  | case1 => cases found
  | case2 first rest begins =>
    cases found
    exact List.prefix_append_drop begins
  | case3 first rest _ ih =>
    obtain ⟨parts, later, same⟩ := Option.map_eq_some_iff.mp found
    cases same
    rw [ih later, cons_append]

theorem not_infix_of_splitOnce {pattern : List α} (nonempty : pattern ≠ [])
    (absent : splitOnce pattern text = none) : ¬ pattern <:+: text := by
  fun_induction splitOnce pattern text with
  | case1 => exact fun found => nonempty (List.infix_nil.mp found)
  | case2 => cases absent
  | case3 first rest differs ih =>
    rw [List.infix_cons_iff]
    exact not_or_intro differs (ih (Option.map_eq_none_iff.mp absent))

end Splits

section Cuts

variable {α : Type u} (weight : α → Nat)

/-- What the characters of a text weigh together. -/
def size : List α → Nat
  | [] => 0
  | first :: rest => weight first + size rest

/-- The longest part from the front of a text of at most the given size. -/
def within : Nat → List α → List α
  | _, [] => []
  | room, first :: rest =>
    if weight first ≤ room then first :: within (room - weight first) rest else []

/-- What remains of a text once characters of at least the given size are gone. -/
def beyond : Nat → List α → List α
  | _, [] => []
  | 0, first :: rest => first :: rest
  | room + 1, first :: rest => beyond (room + 1 - weight first) rest

/-- A text parted at a size, unless that is inside a character or behind the end. -/
def partAt (room : Nat) (text : List α) : Option (List α × List α) :=
  if size weight (within weight room text) = room then
    some (within weight room text, text.drop (within weight room text).length)
  else none

variable {weight}

@[simp] theorem size_nil : size weight [] = 0 := rfl

@[simp] theorem size_cons (first : α) (rest : List α) :
    size weight (first :: rest) = weight first + size weight rest := rfl

@[simp] theorem size_append (left right : List α) :
    size weight (left ++ right) = size weight left + size weight right := by
  induction left with
  | nil => rw [List.nil_append, size_nil, Nat.zero_add]
  | cons first rest sum => rw [cons_append, size_cons, sum, size_cons, Nat.add_assoc]

theorem size_map {change : α → α} (same : ∀ character, weight (change character) = weight character)
    (text : List α) : size weight (text.map change) = size weight text := by
  induction text with
  | nil => rfl
  | cons first rest ih => rw [List.map_cons, size_cons, size_cons, same, ih]

theorem size_eq_length (light : ∀ character ∈ text, weight character = 1) :
    size weight text = text.length := by
  induction text with
  | nil => rfl
  | cons first rest ih =>
    rw [size_cons, light first mem_cons_self, List.length_cons, Nat.add_comm,
      ih fun character member => light character (List.mem_cons_of_mem _ member)]

theorem size_le_of_suffix (ends : part <:+ text) : size weight part ≤ size weight text := by
  obtain ⟨front, rfl⟩ := ends
  rw [size_append]
  exact Nat.le_add_left _ _

theorem size_within_le : size weight (within weight room text) ≤ room := by
  fun_induction within weight room text with
  | case1 | case3 => exact Nat.zero_le _
  | case2 room first rest fits kept =>
    rw [size_cons]
    omega

theorem within_initial : within weight room text <+: text := by
  fun_induction within weight room text with
  | case1 => exact List.prefix_refl []
  | case2 room first rest fits kept => exact List.cons_prefix_cons.mpr ⟨rfl, kept⟩
  | case3 => exact List.nil_prefix

/-- A beginning that fits is within the cut. -/
theorem prefix_within (fits : size weight part ≤ room) (rest : List α) :
    part <+: within weight room (part ++ rest) := by
  induction part generalizing room with
  | nil => exact List.nil_prefix
  | cons first part kept =>
    rw [size_cons] at fits
    rw [cons_append, within, if_pos (by omega)]
    exact List.cons_prefix_cons.mpr ⟨rfl, kept (by omega)⟩

theorem size_le_within (begins : part <+: text) (fits : size weight part ≤ room) :
    size weight part ≤ size weight (within weight room text) := by
  obtain ⟨rest, rfl⟩ := begins
  obtain ⟨more, cut⟩ := prefix_within fits rest
  rw [← cut, size_append]
  exact Nat.le_add_right _ _

theorem partAt_append (positive : ∀ character, 0 < weight character) (front back : List α) :
    partAt weight (size weight front) (front ++ back) = some (front, back) := by
  obtain ⟨more, longer⟩ := prefix_within (Nat.le_refl (size weight front)) back
  have light := size_within_le.trans' (congrArg (size weight) longer).le
  have empty : more = [] := by
    cases more with
    | nil => rfl
    | cons first rest =>
      have heavy := positive first
      rw [size_append, size_cons] at light
      omega
  rw [empty, List.append_nil] at longer
  rw [partAt, ← longer, if_pos rfl, List.drop_left]

theorem of_partAt (parted : partAt weight room text = some (front, back)) :
    text = front ++ back ∧ size weight front = room := by
  unfold partAt at parted
  split at parted
  · rename_i whole
    cases parted
    exact ⟨List.prefix_append_drop within_initial, whole⟩
  · cases parted

theorem beyond_suffix : beyond weight room text <:+ text := by
  fun_induction beyond weight room text with
  | case1 => exact suffix_refl []
  | case2 => exact suffix_refl _
  | case3 room first rest kept => exact kept.trans (suffix_cons first rest)

/-- At least the given size is gone, as far as there is as much. -/
theorem size_beyond_le : size weight (beyond weight room text) ≤ size weight text - room := by
  fun_induction beyond weight room text with
  | case1 => exact Nat.zero_le _
  | case2 => exact Nat.le_refl _
  | case3 room first rest kept =>
    rw [size_cons]
    omega

/-- A beginning within the size of a cut is cut off whole. -/
theorem beyond_append (positive : ∀ character, 0 < weight character)
    (fits : size weight part ≤ room) (rest : List α) :
    beyond weight room (part ++ rest) = beyond weight (room - size weight part) rest := by
  induction part generalizing room with
  | nil => rfl
  | cons first part cut =>
    rw [size_cons] at fits
    have heavy := positive first
    cases room with
    | zero => omega
    | succ room => rw [cons_append, beyond, cut (by omega), size_cons, Nat.sub_sub]

/-- An end that is not reached by the size of a cut stays behind it. -/
theorem suffix_beyond (front : List α) (fits : room ≤ size weight front) :
    part <:+ beyond weight room (front ++ part) := by
  induction front generalizing room with
  | nil =>
    have none : room = 0 := by
      rw [size_nil] at fits
      omega
    rw [none, List.nil_append]
    cases part with
    | nil => exact suffix_refl []
    | cons first rest => exact suffix_refl _
  | cons first front kept =>
    rw [size_cons] at fits
    cases room with
    | zero => exact suffix_append (first :: front) part
    | succ room =>
      rw [cons_append, beyond]
      exact kept (by omega)

end Cuts

end Text
