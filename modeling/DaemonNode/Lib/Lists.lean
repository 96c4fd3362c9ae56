import DaemonNode.Lib.Checks
import Mathlib.Data.List.Destutter
import Mathlib.Data.List.Sort

/-!
# Facts about lists

What the development needs of partial maps over a list, of first occurrences
and of sorting by a key, beyond the library.
-/

namespace Lists

universe u

theorem forall_mem_concat {α : Type u} {holds : α → Prop} {items : List α} {last : α} :
    (∀ item ∈ items ++ [last], holds item) ↔ (∀ item ∈ items, holds item) ∧ holds last := by
  rw [List.forall_mem_append, List.forall_mem_singleton]

/-- Where a list that ends in `last` can be parted: at its end or before. -/
theorem concat_eq_append_cons_iff {α : Type u} {items before after : List α} {last item : α} :
    items ++ [last] = before ++ item :: after ↔
      (items = before ∧ last = item ∧ after = []) ∨
        ∃ shorter, items = before ++ item :: shorter ∧ after = shorter ++ [last] := by
  constructor
  · intro parted
    rcases List.eq_nil_or_concat after with rfl | ⟨shorter, final, rfl⟩
    · obtain ⟨rfl, same⟩ := List.append_inj' parted rfl
      exact .inl ⟨rfl, List.singleton_inj.mp same, rfl⟩
    · rw [List.concat_eq_append, ← List.cons_append, ← List.append_assoc] at parted
      obtain ⟨rfl, same⟩ := List.append_inj' parted rfl
      rw [List.concat_eq_append, List.singleton_inj.mp same]
      exact .inr ⟨shorter, rfl, rfl⟩
  · rintro (⟨rfl, rfl, rfl⟩ | ⟨shorter, rfl, rfl⟩)
    · rfl
    · rw [List.append_assoc, List.cons_append]

variable {α β : Type} {items : List α} {results : List β} {item old new : α} {result : β}
variable {index : Nat} {holds : α → Bool} {transform : α → Option β}

/-- A partial map over a list succeeds exactly when it succeeds on each
element. -/
theorem mapM_eq_some_iff_forall₂ :
    items.mapM transform = some results ↔
      List.Forall₂ (fun item result => transform item = some result) items results := by
  induction items generalizing results with
  | nil => simp [eq_comm]
  | cons item items ih =>
    rw [List.mapM_cons]
    constructor
    · intro mapped
      obtain ⟨result, transformed, mapped⟩ := Option.bind_eq_some_iff.mp mapped
      obtain ⟨rest, restMapped, built⟩ := Option.bind_eq_some_iff.mp mapped
      cases built
      exact .cons transformed (ih.mp restMapped)
    · intro related
      cases related with
      | cons transformed rest =>
        rw [transformed, ih.mpr rest]
        rfl

/-- What holds at every place of a list, as a property of its positions. -/
theorem forall_split_iff {α : Type u} (property : List α → α → Prop) {items : List α} :
    (∀ earlier item later, items = earlier ++ item :: later → property earlier item) ↔
      ∀ position : Fin items.length, property (items.take position) (items.get position) := by
  constructor
  · intro holds position
    apply holds _ _ (items.drop (position + 1))
    rw [List.get_eq_getElem, ← List.drop_eq_getElem_cons, List.take_append_drop]
  · rintro holds earlier item later rfl
    have placed := holds ⟨earlier.length, by simp⟩
    simpa using placed

theorem split_of_getElem? (found : items[index]? = some item) :
    items = items.take index ++ item :: items.drop (index + 1) := by
  obtain ⟨inside, rfl⟩ := List.getElem?_eq_some_iff.mp found
  rw [← List.drop_eq_getElem_cons, List.take_append_drop]

/-- Items that each stand in the relation to something stand in it to a list. -/
theorem exists_forall₂ {relates : α → β → Prop}
    (each : ∀ item ∈ items, ∃ image, relates item image) :
    ∃ images, List.Forall₂ relates items images := by
  induction items with
  | nil => exact ⟨[], .nil⟩
  | cons item items ih =>
    obtain ⟨image, related⟩ := each item List.mem_cons_self
    obtain ⟨images, rest⟩ := ih fun item member =>
      each item (List.mem_cons_of_mem _ member)
    exact ⟨image :: images, .cons related rest⟩

/-- What items relate to, items like them relate to. -/
theorem forall₂_of_alike {alike : α → β → Prop} {relates : α → γ → Prop}
    {relatesOther : β → γ → Prop}
    (step : ∀ item other image, alike item other → relates item image → relatesOther other image)
    {others : List β} {images : List γ} (same : List.Forall₂ alike items others)
    (each : List.Forall₂ relates items images) :
    List.Forall₂ relatesOther others images := by
  induction same generalizing images with
  | nil =>
    cases each
    exact .nil
  | cons alike _ ih =>
    cases each with
    | cons first rest => exact .cons (step _ _ _ alike first) (ih rest)

/-- Related lists: every element on the right has one on the left. -/
theorem exists_of_mem_forall₂ {related : α → β → Prop} (each : List.Forall₂ related items results)
    (member : result ∈ results) :
    ∃ item ∈ items, related item result := by
  induction each with
  | nil => simp at member
  | @cons item head items rest holds _ ih =>
    rcases List.mem_cons.mp member with rfl | later
    · exact ⟨item, List.mem_cons_self, holds⟩
    · obtain ⟨source, inside, found⟩ := ih later
      exact ⟨source, List.mem_cons_of_mem _ inside, found⟩

/-- What a map does to each of some lists it does to all of them together. -/
theorem map_flatten_of_forall₂ (transform : α → γ) {expected : β → List γ} {items : List β}
    {pieces : List (List α)}
    (each : List.Forall₂ (fun item piece => piece.map transform = expected item) items pieces) :
    pieces.flatten.map transform = items.flatMap expected := by
  induction each with
  | nil => rfl
  | cons holds _ ih => rw [List.flatten_cons, List.map_append, List.flatMap_cons, holds, ih]

/-- A map that may refuse has one result for each element. -/
theorem forall₂_of_mapM_ok {transform : α → Except ε β}
    (mapped : items.mapM transform = .ok results) :
    List.Forall₂ (fun item result => transform item = .ok result) items results := by
  induction items generalizing results with
  | nil =>
    cases mapped
    exact .nil
  | cons item items ih =>
    rw [List.mapM_cons] at mapped
    obtain ⟨result, transformed, mapped⟩ := Checks.bind_eq_ok_iff.mp mapped
    obtain ⟨later, rest, built⟩ := Checks.bind_eq_ok_iff.mp mapped
    cases built
    exact .cons transformed (ih rest)

/-- The counterpart of the element at a position. -/
theorem exists_getElem?_of_forall₂ {related : α → β → Prop}
    (each : List.Forall₂ related items results) {position : Nat}
    (found : items[position]? = some item) :
    ∃ result, results[position]? = some result ∧ related item result := by
  induction each generalizing position with
  | nil => simp at found
  | cons first _ ih =>
    cases position with
    | zero =>
      cases found
      exact ⟨_, rfl, first⟩
    | succ position => exact ih found

theorem mapM_ok_of_forall₂ {transform : α → Except ε β}
    (each : List.Forall₂ (fun item result => transform item = .ok result) items results) :
    items.mapM transform = .ok results := by
  induction each with
  | nil => rfl
  | cons first _ ih =>
    rw [List.mapM_cons, first, ih]
    rfl

/-- A loop whose every step succeeds and keeps a property succeeds with it. -/
theorem foldlM_ok {step : β → α → Except ε β} (keeps : β → Prop)
    (steps : ∀ state, keeps state → ∀ item ∈ items, ∃ next, step state item = .ok next ∧ keeps next)
    {start : β} (holds : keeps start) :
    ∃ result, items.foldlM step start = .ok result ∧ keeps result := by
  induction items generalizing start with
  | nil => exact ⟨start, rfl, holds⟩
  | cons item items ih =>
    obtain ⟨next, stepped, held⟩ := steps start holds item List.mem_cons_self
    obtain ⟨result, folded, kept⟩ := ih
      (fun state kept later member => steps state kept later (List.mem_cons_of_mem _ member)) held
    refine ⟨result, ?_, kept⟩
    rw [List.foldlM_cons, stepped]
    exact folded

/-- A partial map that has a result on each element has a result. -/
theorem mapM_eq_some_map {total : α → β}
    (each : ∀ item ∈ items, transform item = some (total item)) :
    items.mapM transform = some (items.map total) := by
  rw [mapM_eq_some_iff_forall₂, List.forall₂_map_right_iff, List.forall₂_same]
  exact each

/-- Repeating elements adds no first occurrence. -/
theorem eraseDups_append_of_subset [DecidableEq α] {repeated : List α} (known : repeated ⊆ items) :
    (items ++ repeated).eraseDups = items.eraseDups := by
  have nothing : repeated.removeAll items = [] := by
    simp only [List.removeAll, List.filter_eq_nil_iff]
    intro item member
    simp [known member]
  rw [List.eraseDups_append, nothing]
  simp

/-- A new element is a first occurrence. -/
theorem eraseDups_concat_of_not_mem [DecidableEq α] (fresh : item ∉ items) :
    (items ++ [item]).eraseDups = items.eraseDups ++ [item] := by
  have kept : [item].removeAll items = [item] := by
    simp [List.removeAll, fresh]
  rw [List.eraseDups_append, kept]
  rfl

/-- The last selected element of a list with one more element. -/
theorem getLast?_filterMap_concat (select : α → Option β) (items : List α) (item : α) :
    ((items ++ [item]).filterMap select).getLast? =
      (select item).or (items.filterMap select).getLast? := by
  rw [List.filterMap_append, List.getLast?_append]
  cases selected : select item <;> simp [selected]

/-- Of two distinct elements one differs from a given element. -/
theorem exists_ne_of_two_le_countP (distinct : items.Nodup) (several : 2 ≤ items.countP holds)
    (excluded : α) :
    ∃ item ∈ items, item ≠ excluded ∧ holds item = true := by
  by_contra none
  push Not at none
  have alone : (items.filter holds) ⊆ [excluded] := by
    intro item member
    obtain ⟨inside, held⟩ := List.mem_filter.mp member
    by_contra different
    exact none item inside (by simpa using different) held
  have bound := (List.subperm_of_subset (distinct.filter holds) alone).length_le
  rw [List.countP_eq_length_filter] at several
  simp only [List.length_singleton] at bound
  omega

/-- What holds at no two places of a list holds at most once. -/
theorem countP_le_one
    (alone : ∀ (first second : Nat) (item other : α),
      items[first]? = some item → items[second]? = some other →
      holds item = true → holds other = true → first = second) :
    items.countP holds ≤ 1 := by
  induction items with
  | nil => exact Nat.zero_le 1
  | cons head items ih =>
    by_cases headHolds : holds head = true
    · have nowhere : items.countP holds = 0 := by
        refine List.countP_eq_zero.mpr fun item member itemHolds => ?_
        obtain ⟨place, placed⟩ := List.mem_iff_getElem?.mp member
        exact absurd (alone 0 (place + 1) head item rfl placed headHolds itemHolds) nofun
      rw [List.countP_cons_of_pos headHolds, nowhere]
    · rw [List.countP_cons_of_neg headHolds]
      refine ih fun first second item other atFirst atSecond h₁ h₂ => ?_
      exact Nat.succ.inj (alone (first + 1) (second + 1) item other atFirst atSecond h₁ h₂)

/-- What holds at most once holds at one place. -/
theorem eq_of_countP_le_one {first second : Nat} {other : α} (once : items.countP holds ≤ 1)
    (atFirst : items[first]? = some item) (atSecond : items[second]? = some other)
    (itemHolds : holds item = true) (otherHolds : holds other = true) :
    first = second := by
  induction items generalizing first second with
  | nil => cases atFirst
  | cons head items ih =>
    have elsewhere : ∀ {place : Nat} {found : α}, items[place]? = some found →
        holds found = true → 0 < items.countP holds := fun placed held =>
      List.countP_pos_iff.mpr ⟨_, List.mem_of_getElem? placed, held⟩
    rw [List.countP_cons] at once
    cases first with
    | zero =>
      cases second with
      | zero => rfl
      | succ second =>
        cases atFirst
        have positive := elsewhere atSecond otherHolds
        rw [if_pos itemHolds] at once
        omega
    | succ first =>
      cases second with
      | zero =>
        cases atSecond
        have positive := elsewhere atFirst itemHolds
        rw [if_pos otherHolds] at once
        omega
      | succ second => rw [ih (Nat.le_of_add_right_le once) atFirst atSecond]

/-- What a list holds after one item is replaced: the new one at its place, or an old one
elsewhere. -/
theorem getElem?_set_cases {place : Nat} (there : (items.set index new)[place]? = some item) :
    place = index ∧ item = new ∨ place ≠ index ∧ items[place]? = some item := by
  rw [List.getElem?_set] at there
  split at there
  · rename_i same
    split at there
    · cases there
      exact .inl ⟨same.symm, rfl⟩
    · cases there
  · rename_i different
    exact .inr ⟨Ne.symm different, there⟩

/-- What is counted after one item of a list is replaced. -/
theorem countP_set_add (found : items[index]? = some old) :
    (items.set index new).countP holds + (holds old).toNat =
      items.countP holds + (holds new).toNat := by
  obtain ⟨bound, rfl⟩ := List.getElem?_eq_some_iff.mp found
  have counted : holds items[index] = true → 0 < items.countP holds := fun held =>
    List.countP_pos_iff.mpr ⟨_, List.getElem_mem bound, held⟩
  rw [List.countP_set bound]
  cases oldHolds : holds items[index] with
  | false => cases holds new <;> simp
  | true =>
    have positive := counted oldHolds
    cases holds new <;> simp <;> omega

/-- What some item satisfies after one that does not is replaced. -/
theorem any_set_of_not (found : items[index]? = some old) (unheld : holds old = false) :
    (items.set index new).any holds = (items.any holds || holds new) := by
  have counted := @countP_set_add α items old new index holds found
  rw [unheld, Bool.toNat_false, Nat.add_zero] at counted
  rw [Bool.eq_iff_iff, Bool.or_eq_true, List.any_eq_true, List.any_eq_true,
    ← List.countP_pos_iff, ← List.countP_pos_iff, counted]
  cases holds new <;> simp

/-- Membership in the tail of a list, by position. -/
theorem mem_drop_iff (start : Nat) :
    item ∈ items.drop start ↔ ∃ position, start ≤ position ∧ items[position]? = some item := by
  rw [List.mem_iff_getElem?]
  constructor
  · rintro ⟨offset, found⟩
    rw [List.getElem?_drop] at found
    exact ⟨start + offset, Nat.le_add_right _ _, found⟩
  · rintro ⟨position, above, found⟩
    refine ⟨position - start, ?_⟩
    rw [List.getElem?_drop, Nat.add_sub_cancel' above]
    exact found

section Key

variable {κ : Type} [LinearOrder κ] (key : α → κ)

/-- Sorting by a key makes the keys ascend. -/
theorem pairwise_insertionSort_key (items : List α) :
    (items.insertionSort fun left right => key left ≤ key right).Pairwise
      fun left right => key left ≤ key right := by
  have total : Std.Total fun left right : α => key left ≤ key right :=
    ⟨fun left right => le_total (key left) (key right)⟩
  have transitive : IsTrans α fun left right => key left ≤ key right := ⟨fun _ _ _ => le_trans⟩
  exact List.pairwise_insertionSort _ items

/-- Distinct keys ascend strictly. -/
theorem pairwise_lt_insertionSort_key
    (distinct : items.Pairwise fun left right => key left ≠ key right) :
    (items.insertionSort fun left right => key left ≤ key right).Pairwise
      fun left right => key left < key right := by
  have sortedDistinct := (List.perm_insertionSort
    (fun left right => key left ≤ key right) items).symm.pairwise distinct
      fun different => different.symm
  exact ((pairwise_insertionSort_key key items).and sortedDistinct).imp
    fun both => lt_of_le_of_ne both.1 both.2

variable {key}

/-- Looking up the key of an element finds it, when keys do not repeat. -/
theorem find?_key_eq_some (distinct : (items.map key).Nodup) (member : item ∈ items) :
    items.find? (fun other => key other = key item) = some item := by
  cases found : items.find? fun other => key other = key item with
  | none =>
    have absent := List.find?_eq_none.mp found item member
    simp at absent
  | some other =>
    have same : key other = key item := by
      simpa using List.find?_some found
    rw [List.inj_on_of_nodup_map distinct (List.mem_of_find?_eq_some found) member same]

/-- A list with strictly ascending keys is what sorting its elements
yields. -/
theorem insertionSort_key_eq {sorted : List α}
    (ascending : sorted.Pairwise fun left right => key left < key right) (distinct : items.Nodup)
    (same : ∀ item, item ∈ items ↔ item ∈ sorted) :
    items.insertionSort (fun left right => key left ≤ key right) = sorted := by
  have sortedDistinct : sorted.Nodup := ascending.imp fun less equal => by simp [equal] at less
  have rearranged : (items.insertionSort fun left right =>
      key left ≤ key right).Perm sorted :=
    (List.perm_insertionSort _ items).trans
      ((List.perm_ext_iff_of_nodup distinct sortedDistinct).mpr same)
  refine rearranged.eq_of_pairwise ?_ (pairwise_insertionSort_key key items)
    (ascending.imp le_of_lt)
  intro left right leftMember rightMember below above
  have distinctKeys : (sorted.map key).Nodup := by
    rw [List.Nodup, List.pairwise_map]
    exact ascending.imp ne_of_lt
  exact List.inj_on_of_nodup_map distinctKeys (rearranged.mem_iff.mp leftMember) rightMember
    (le_antisymm below above)

/-- The order of distinct keys depends on the items alone. -/
theorem insertionSort_key_eq_of_perm {listed : List α}
    (distinct : items.Pairwise fun left right => key left ≠ key right)
    (rearranged : listed.Perm items) :
    listed.insertionSort (fun left right => key left ≤ key right) =
      items.insertionSort fun left right => key left ≤ key right := by
  have itemsDistinct : items.Nodup :=
    distinct.imp fun different same => different (congrArg key same)
  apply insertionSort_key_eq
  · exact pairwise_lt_insertionSort_key key distinct
  · exact rearranged.nodup_iff.mpr itemsDistinct
  · intro item
    rw [List.mem_insertionSort, rearranged.mem_iff]

/-- Dropping repeated neighbours keeps the members. -/
theorem mem_destutter_ne [DecidableEq α] (items : List α) (item : α) :
    item ∈ items.destutter (· ≠ ·) ↔ item ∈ items := by
  have after : ∀ first, item ∈ items.destutter' (· ≠ ·) first ↔
      item = first ∨ item ∈ items := by
    induction items with
    | nil => simp
    | cons head items ih =>
      intro first
      by_cases same : first = head
      · rw [List.destutter'_cons_neg _ (not_not_intro same), ih, same]
        simp
      · rw [List.destutter'_cons_pos _ same, List.mem_cons, ih, List.mem_cons]
  cases items with
  | nil => rfl
  | cons head items =>
    have first := after head
    rw [List.destutter'_cons_neg _ (not_not_intro rfl)] at first
    rw [List.destutter_cons', first]
    simp

/-- Dropping repeated neighbours of a sorted list leaves it strictly ascending. -/
theorem pairwise_lt_destutter_ne [DecidableEq α] (injective : Function.Injective key)
    (sorted : items.Pairwise fun left right => key left ≤ key right) :
    (items.destutter (· ≠ ·)).Pairwise fun left right => key left < key right := by
  have ascending := sorted.sublist (List.destutter_sublist (· ≠ ·) items)
  have distinct := List.isChain_destutter (· ≠ ·) items
  have strict : (items.destutter (· ≠ ·)).IsChain fun left right => key left < key right := by
    rw [List.isChain_iff_getElem] at distinct ⊢
    intro position inside
    exact lt_of_le_of_ne (List.isChain_iff_getElem.mp ascending.isChain position inside)
      (injective.ne (distinct position inside))
  have transitive : IsTrans α fun left right => key left < key right := ⟨fun _ _ _ => lt_trans⟩
  exact strict.pairwise

end Key

end Lists
