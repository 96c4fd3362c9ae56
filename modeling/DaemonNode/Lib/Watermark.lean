import DaemonNode.Lib.Lists

/-!
# Watermarks

A feed of ranked items, each belonging to a slot, is guarded by a watermark per
slot: an item is let through only if its rank is above every earlier item of its
slot. Every item does when the items of each slot first arrive in ascending
rank, whatever is repeated.
-/

namespace Watermark

universe u v w

variable {Item : Type u} {Slot : Type v} {Rank : Type w} [LinearOrder Rank]
variable (slot : Item → Slot) (rank : Item → Rank)

/-- The item ranks above everything of its slot in `before`. -/
def Above (before : List Item) (item : Item) : Prop :=
  ∀ earlier ∈ before, slot earlier = slot item → rank earlier < rank item

/-- The item arrives, at some point of the delivery, above what came before. -/
def Leads (delivery : List Item) (item : Item) : Prop :=
  ∃ before after, delivery = before ++ item :: after ∧ Above slot rank before item

/-- Each item is, when it first arrives, above what came before. -/
def Ascends (delivery : List Item) : Prop :=
  ∀ before item after, delivery = before ++ item :: after →
    item ∈ before ∨ Above slot rank before item

/-- `mark` is the watermark of a slot after a delivery: the highest rank that
came. -/
def IsMark (delivery : List Item) (key : Slot) (mark : Option Rank) : Prop :=
  (∀ item ∈ delivery, slot item = key → ∃ highest ∈ mark, rank item ≤ highest) ∧
    ∀ highest ∈ mark, ∃ item ∈ delivery, slot item = key ∧ rank item = highest

variable {slot rank}

theorem leads_nil : ¬Leads slot rank [] item := by
  rintro ⟨before, after, parted, -⟩
  simp at parted

theorem leads_concat :
    Leads slot rank (delivery ++ [last]) item ↔
      Leads slot rank delivery item ∨ (item = last ∧ Above slot rank delivery last) := by
  constructor
  · rintro ⟨before, after, parted, above⟩
    rcases Lists.concat_eq_append_cons_iff.mp parted with
      ⟨rfl, rfl, -⟩ | ⟨shorter, sooner, -⟩
    · exact .inr ⟨rfl, above⟩
    · exact .inl ⟨before, shorter, sooner, above⟩
  · rintro (⟨before, after, rfl, above⟩ | ⟨rfl, above⟩)
    · exact ⟨before, after ++ [last], by simp, above⟩
    · exact ⟨delivery, [], rfl, above⟩

theorem ascends_nil : Ascends slot rank ([] : List Item) := by
  intro before item after parted
  simp at parted

theorem ascends_concat :
    Ascends slot rank (delivery ++ [last]) ↔
      Ascends slot rank delivery ∧ (last ∈ delivery ∨ Above slot rank delivery last) := by
  constructor
  · intro ascends
    refine ⟨?_, ascends delivery last [] rfl⟩
    rintro before item after rfl
    exact ascends before item (after ++ [last]) (by simp)
  · rintro ⟨ascends, admitted⟩ before item after parted
    rcases Lists.concat_eq_append_cons_iff.mp parted with
      ⟨rfl, rfl, -⟩ | ⟨shorter, sooner, -⟩
    · exact admitted
    · exact ascends before item shorter sooner

/-- Where first arrivals ascend, every item leads. -/
theorem Ascends.leads (ascends : Ascends slot rank delivery) (member : item ∈ delivery) :
    Leads slot rank delivery item := by
  obtain ⟨before, after, parted, first⟩ := List.eq_append_cons_of_mem member
  rcases ascends before item after parted with again | above
  · exact absurd again first
  · exact ⟨before, after, parted, above⟩

theorem Leads.mem (leads : Leads slot rank delivery item) : item ∈ delivery := by
  obtain ⟨before, after, rfl, -⟩ := leads
  simp

theorem isMark_nil (key : Slot) : IsMark slot rank [] key none :=
  ⟨by simp, by simp⟩

/-- An item passes the guard exactly when it is above what came before. -/
theorem IsMark.lt_iff_above (isMark : IsMark slot rank delivery (slot item) mark) :
    (∀ highest ∈ mark, highest < rank item) ↔ Above slot rank delivery item := by
  constructor
  · intro passes earlier member sameSlot
    obtain ⟨highest, isHighest, below⟩ := isMark.1 earlier member sameSlot
    exact below.trans_lt (passes highest isHighest)
  · intro above highest isHighest
    obtain ⟨earlier, member, sameSlot, rfl⟩ := isMark.2 highest isHighest
    exact above earlier member sameSlot

theorem IsMark.concat (isMark : IsMark slot rank delivery key mark)
    (covered : slot item = key → ∃ highest ∈ mark, rank item ≤ highest) :
    IsMark slot rank (delivery ++ [item]) key mark := by
  refine ⟨Lists.forall_mem_concat.mpr ⟨isMark.1, covered⟩, fun other isOther => ?_⟩
  obtain ⟨earlier, member, sameSlot, same⟩ := isMark.2 other isOther
  exact ⟨earlier, List.mem_append_left _ member, sameSlot, same⟩

/-- An item that does not pass leaves the mark of its slot. -/
theorem IsMark.stop (isMark : IsMark slot rank delivery (slot item) mark)
    (isHighest : highest ∈ mark) (notAbove : rank item ≤ highest) :
    IsMark slot rank (delivery ++ [item]) (slot item) mark :=
  isMark.concat fun _ => ⟨highest, isHighest, notAbove⟩

theorem IsMark.frame (isMark : IsMark slot rank delivery key mark) (elsewhere : slot item ≠ key) :
    IsMark slot rank (delivery ++ [item]) key mark :=
  isMark.concat fun sameSlot => absurd sameSlot elsewhere

end Watermark
