import Mathlib.Data.List.MinMax

/-!
# Terms and their owners

Ownership that changes hands is ordered by a term: each tenure is a term with
its owner. A history is fenced when a later tenure has a greater term or is the
same tenure over again, so that no term ever has two owners.

A register that grants tenures need not keep the history. It keeps the present
holder and the highest term it has granted, and that is enough to keep the
history fenced. An observer who sees only some of the grants, in any order, and
keeps the one of the highest term, agrees with every other such observer who
reached the same term.
-/

namespace Terms

universe u v w

variable {Term : Type u} {Owner : Type v} [LinearOrder Term]

/-- A tenure may come after another: its term is greater, or it is the same. -/
def Follows (earlier later : Term × Owner) : Prop :=
  earlier.1 < later.1 ∨ earlier = later

/-- A history in which every tenure may come after each one before it. -/
def Ordered (history : List (Term × Owner)) : Prop :=
  history.Pairwise Follows

theorem Follows.le {earlier later : Term × Owner} (follows : Follows earlier later) :
    earlier.1 ≤ later.1 := by
  rcases follows with less | same
  · exact less.le
  · rw [same]

namespace Ordered

variable {history : List (Term × Owner)}

theorem eq_of_term_eq (ordered : Ordered history) (firstMember : first ∈ history)
    (secondMember : second ∈ history) (sameTerm : first.1 = second.1) :
    first = second := by
  by_contra different
  have either : Follows first second ∨ Follows second first :=
    (ordered.imp Or.inl).forall_of_forall_of_flip (fun _ _ => .inl (.inr rfl))
      (ordered.imp Or.inr) firstMember secondMember
  rcases either with (less | same) | (less | same)
  · exact absurd sameTerm less.ne
  · exact different same
  · exact absurd sameTerm.symm less.ne
  · exact different same.symm

theorem concat (ordered : Ordered history) (follows : ∀ tenure ∈ history, Follows tenure next) :
    Ordered (history ++ [next]) := by
  refine List.pairwise_append.mpr ⟨ordered, List.pairwise_singleton _ _, ?_⟩
  intro tenure member later newest
  obtain rfl := List.mem_singleton.mp newest
  exact follows tenure member

/-- Where the owner changes, the new term is above every earlier one. -/
theorem lt_of_change {earlier later : List (Term × Owner)}
    (ordered : Ordered (earlier ++ previous :: next :: later)) (changed : previous.2 ≠ next.2) :
    ∀ tenure ∈ earlier ++ [previous], tenure.1 < next.1 := by
  obtain ⟨-, rest, across⟩ := List.pairwise_append.mp ordered
  have handover : previous.1 < next.1 :=
    (List.rel_of_pairwise_cons rest List.mem_cons_self).resolve_right fun same =>
      changed (congrArg Prod.snd same)
  intro tenure member
  rcases List.mem_append.mp member with old | last
  · exact (across tenure old previous List.mem_cons_self).le.trans_lt handover
  · rw [List.mem_singleton.mp last]
    exact handover

end Ordered

/-- What a register knows of its history: the history is ordered, the floor
bounds its terms, and the holder's tenure is in it at the floor. -/
structure Fenced (history : List (Term × Owner))
    (holder : Option (Term × Owner)) (floor : Option Term) : Prop where
  ordered : Ordered history
  bounded : ∀ tenure ∈ history, ∃ highest ∈ floor, tenure.1 ≤ highest
  held : ∀ tenure ∈ holder, tenure ∈ history ∧ floor = some tenure.1

namespace Fenced

variable {floor : Option Term}
variable {next : Term × Owner}

/-- A register that has granted nothing. -/
theorem empty : Fenced ([] : List (Term × Owner)) none none where
  ordered := List.Pairwise.nil
  bounded := by simp
  held := by simp

/-- The holder leaves; the floor stays. -/
theorem vacate (fenced : Fenced history holder floor) :
    Fenced history none floor where
  ordered := fenced.ordered
  bounded := fenced.bounded
  held := by simp

/-- A tenure that may follow the whole history can be granted. -/
theorem grant (fenced : Fenced history holder floor)
    (follows : ∀ tenure ∈ history, Follows tenure next) :
    Fenced (history ++ [next]) (some next) (some next.1) where
  ordered := fenced.ordered.concat follows
  bounded := by
    intro tenure member
    refine ⟨next.1, rfl, ?_⟩
    rcases List.mem_append.mp member with old | newest
    · exact (follows tenure old).le
    · rw [List.mem_singleton.mp newest]
  held := by
    intro tenure holds
    cases holds
    exact ⟨List.mem_append_right _ (List.mem_singleton_self _), rfl⟩

/-- A term above the floor may follow the whole history. -/
theorem follows_of_floor_lt (fenced : Fenced history holder floor)
    (above : ∀ highest ∈ floor, highest < next.1) :
    ∀ tenure ∈ history, Follows tenure next := by
  intro tenure member
  obtain ⟨highest, isFloor, below⟩ := fenced.bounded tenure member
  exact .inl (below.trans_lt (above highest isFloor))

/-- So may the holder's own tenure, at its term or a greater one. -/
theorem follows_of_holder (fenced : Fenced history holder floor) (holds : current ∈ holder)
    (sameOwner : current.2 = next.2) (notBelow : current.1 ≤ next.1) :
    ∀ tenure ∈ history, Follows tenure next := by
  obtain ⟨member, isFloor⟩ := fenced.held current holds
  rcases notBelow.lt_or_eq with less | same
  · apply fenced.follows_of_floor_lt
    intro highest highestFloor
    obtain rfl := Option.some.inj (isFloor.symm.trans highestFloor)
    exact less
  · obtain rfl : current = next := Prod.ext same sameOwner
    intro tenure old
    obtain ⟨highest, highestFloor, below⟩ := fenced.bounded tenure old
    obtain rfl := Option.some.inj (isFloor.symm.trans highestFloor)
    rcases below.lt_or_eq with less | sameTerm
    · exact .inl less
    · exact .inr (fenced.ordered.eq_of_term_eq old member sameTerm)

end Fenced

section Observers

variable {Grant : Type w} {term : Grant → Term} {seen : List Grant}

/-- The term of the grant kept is the highest seen. -/
theorem map_argmax_eq_max? : (seen.argmax term).map term = (seen.map term).max? := by
  cases kept : seen.argmax term with
  | none =>
    rw [List.argmax_eq_none.mp kept]
    rfl
  | some latest =>
    symm
    rw [Option.map_some, List.max?_eq_some_iff]
    refine ⟨List.mem_map_of_mem (List.argmax_mem kept), ?_⟩
    intro other member
    obtain ⟨grant, grantSeen, rfl⟩ := List.mem_map.mp member
    exact List.le_of_mem_argmax grantSeen kept

end Observers

end Terms
