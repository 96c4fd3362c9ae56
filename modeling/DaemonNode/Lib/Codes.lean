import Mathlib.Data.List.Forall2

/-!
# Prefix codes

A code is a relation between values and the words that write them. Two values
are told apart when their words, whatever follows them, are the same only if the
values are: then the words end at the same place. Codes for pairs and lists of
values are built by concatenation.
-/

namespace Codes

variable {α β γ : Type}

/-- Whatever follows them, the words of two values agree only if the values are
the same, and then they end at the same place. -/
def Settles (writes : α → List γ → Prop) (same : α → α → Prop) (left right : α) : Prop :=
  ∀ word otherWord rest otherRest, writes left word → writes right otherWord →
    word ++ rest = otherWord ++ otherRest → same left right ∧ rest = otherRest

theorem Settles.eq_of_isPrefix {writes : α → List γ → Prop} {same : α → α → Prop}
    (settles : Settles writes same left right) (written : writes left word)
    (otherWritten : writes right otherWord) (begins : word <+: otherWord) :
    same left right ∧ word = otherWord := by
  obtain ⟨rest, equal⟩ := begins
  have joined : word ++ rest = otherWord ++ [] := by
    rw [equal, List.append_nil]
  obtain ⟨settled, rfl⟩ := settles word otherWord rest [] written otherWritten joined
  exact ⟨settled, by rw [← equal, List.append_nil]⟩

def pairWord (writesFst : α → List γ → Prop) (writesSnd : β → List γ → Prop)
    (pair : α × β) (word : List γ) : Prop :=
  ∃ first second, writesFst pair.1 first ∧ writesSnd pair.2 second ∧ word = first ++ second

theorem Settles.pair {writesFst : α → List γ → Prop} {writesSnd : β → List γ → Prop}
    {sameFst : α → α → Prop} {sameSnd : β → β → Prop}
    (first : Settles writesFst sameFst left.1 right.1)
    (second : Settles writesSnd sameSnd left.2 right.2) :
    Settles (pairWord writesFst writesSnd)
      (fun left right => sameFst left.1 right.1 ∧ sameSnd left.2 right.2) left right := by
  rintro _ _ rest otherRest ⟨head, tail, wroteHead, wroteTail, rfl⟩
    ⟨otherHead, otherTail, wroteOtherHead, wroteOtherTail, rfl⟩ equal
  rw [List.append_assoc, List.append_assoc] at equal
  obtain ⟨sameHead, remaining⟩ := first _ _ _ _ wroteHead wroteOtherHead equal
  obtain ⟨sameTail, ended⟩ := second _ _ _ _ wroteTail wroteOtherTail remaining
  exact ⟨⟨sameHead, sameTail⟩, ended⟩

/-- Lists of one length are told apart when their members are. -/
theorem Settles.list {writes : α → List γ → Prop} {same : α → α → Prop}
    (each : ∀ item ∈ left, ∀ other ∈ right, Settles writes same item other)
    (written : List.Forall₂ writes left words) (otherWritten : List.Forall₂ writes right otherWords)
    (length_eq : left.length = right.length)
    (equal : words.flatten ++ rest = otherWords.flatten ++ otherRest) :
    List.Forall₂ same left right ∧ rest = otherRest := by
  induction written generalizing right otherWords with
  | nil =>
    obtain rfl := List.length_eq_zero_iff.mp length_eq.symm
    cases otherWritten
    exact ⟨.nil, equal⟩
  | @cons item word items words wrote _ ih =>
    cases otherWritten with
    | nil => simp at length_eq
    | @cons other otherWord others otherWords wroteOther wroteOthers =>
      rw [List.flatten_cons, List.flatten_cons, List.append_assoc, List.append_assoc] at equal
      obtain ⟨sameItem, remaining⟩ := each item List.mem_cons_self other
        List.mem_cons_self _ _ _ _ wrote wroteOther equal
      obtain ⟨sameItems, ended⟩ := ih
        (fun item member other otherMember => each item (List.mem_cons_of_mem _ member)
          other (List.mem_cons_of_mem _ otherMember))
        wroteOthers (by simpa using length_eq) remaining
      exact ⟨.cons sameItem sameItems, ended⟩

/-- Whatever follows them, the words of two values differ if the values do. -/
def Delimits (write : α → List γ) : Prop :=
  ∀ left right rest otherRest, write left ++ rest = write right ++ otherRest →
    left = right ∧ rest = otherRest

theorem Delimits.injective {write : α → List γ} (delimits : Delimits write) :
    Function.Injective write :=
  fun left right equal => (delimits left right [] [] (congrArg (· ++ []) equal)).1

theorem Delimits.pair {writeFst : α → List γ} {writeSnd : β → List γ}
    (first : Delimits writeFst) (second : Delimits writeSnd) :
    Delimits fun pair : α × β => writeFst pair.1 ++ writeSnd pair.2 := by
  intro left right rest otherRest equal
  rw [List.append_assoc, List.append_assoc] at equal
  obtain ⟨sameFst, remaining⟩ := first _ _ _ _ equal
  obtain ⟨sameSnd, ended⟩ := second _ _ _ _ remaining
  exact ⟨Prod.ext sameFst sameSnd, ended⟩

/-- Lists of one length are told apart. -/
theorem Delimits.list {left right : List α} {write : α → List γ} (delimits : Delimits write)
    (length_eq : left.length = right.length)
    (equal : left.flatMap write ++ rest = right.flatMap write ++ otherRest) :
    left = right ∧ rest = otherRest := by
  have written (items : List α) :
      List.Forall₂ (fun item word => word = write item) items (items.map write) := by
    rw [List.forall₂_map_right_iff, List.forall₂_same]
    exact fun _ _ => rfl
  have each : ∀ item ∈ left, ∀ other ∈ right,
      Settles (fun item word => word = write item) Eq item other := by
    rintro item _ other _ _ _ rest otherRest rfl rfl
    exact delimits item other rest otherRest
  obtain ⟨same, ended⟩ := Settles.list each (written left) (written right) length_eq equal
  exact ⟨List.forall₂_eq_eq_eq ▸ same, ended⟩

end Codes
