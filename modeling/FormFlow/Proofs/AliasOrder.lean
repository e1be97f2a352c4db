import FormFlow.Proofs.AliasPriority
import Mathlib.Data.List.Nodup

/-!
# Aliases by priority

Several text areas can claim one name.  `NameBelongsTo` says which of them the name belongs to: a state key to its
own area, any other name to the area whose id sorts last in the strongest round in which someone claims it.
With distinct ids this leaves no choice, whatever the order in which the components are declared.

## Principal results

* `lastClaim_eq_some_iff` — the last claim of a round is that of the greatest id;
* `aliasTable_eq_of_perm` — the order of declaration does not matter;
* `aliasTable_priority` — what the table holds, and how names resolve.
-/

namespace FormFlow

/-! ## The greatest id -/

/-- The text area with the greatest id among those that have a name. -/
structure Foremost (areas : List TextArea) (nameOf : TextArea → String) (name : String) (a : TextArea) :
    Prop where
  mem : a ∈ areas
  named : nameOf a = name
  greatest : ∀ b ∈ areas, nameOf b = name → Text.pointsLe b.id a.id = true

/-- The state key that a name belongs to among text areas, if to any. -/
inductive NameBelongsTo (areas : List TextArea) (name : String) : Option String → Prop where
  | stateKey {a : TextArea} (mem : a ∈ areas) (named : a.stateKey = name) : NameBelongsTo areas name (some name)
  | label {a : TextArea} (noKey : ∀ b ∈ areas, b.stateKey ≠ name)
      (foremost : Foremost areas TextArea.label name a) : NameBelongsTo areas name (some a.stateKey)
  | looseKey {a : TextArea} (noKey : ∀ b ∈ areas, b.stateKey ≠ name)
      (noLabel : ∀ b ∈ areas, b.label ≠ name)
      (foremost : Foremost areas (fun b => normalizeKey b.stateKey) name a) :
      NameBelongsTo areas name (some a.stateKey)
  | looseLabel {a : TextArea} (noKey : ∀ b ∈ areas, b.stateKey ≠ name)
      (noLabel : ∀ b ∈ areas, b.label ≠ name) (noLooseKey : ∀ b ∈ areas, normalizeKey b.stateKey ≠ name)
      (foremost : Foremost areas (fun b => normalizeKey b.label) name a) :
      NameBelongsTo areas name (some a.stateKey)
  | nothing (noKey : ∀ b ∈ areas, b.stateKey ≠ name) (noLabel : ∀ b ∈ areas, b.label ≠ name)
      (noLooseKey : ∀ b ∈ areas, normalizeKey b.stateKey ≠ name)
      (noLooseLabel : ∀ b ∈ areas, normalizeKey b.label ≠ name) : NameBelongsTo areas name none

/-- In a list that is in order, the last element with a property stands behind all others that have it. -/
theorem le_of_find?_reverse {α : Type} {le : α → α → Prop} (hrefl : ∀ a, le a a) {as : List α}
    (h : as.Pairwise le) {p : α → Bool} {a : α} (ha : as.reverse.find? p = some a) :
    ∀ b ∈ as, p b = true → le b a := by
  obtain ⟨_, behind, front, heq, hbehind⟩ := List.find?_eq_some_iff_append.1 ha
  have has : as = front.reverse ++ a :: behind.reverse := by
    rw [← List.reverse_reverse as, heq]
    simp
  intro b hb hp
  rw [has, List.pairwise_append] at h
  rw [has, List.mem_append, List.mem_cons] at hb
  rcases hb with hb | rfl | hb
  · exact h.2.2 b hb a (List.mem_cons_self ..)
  · exact hrefl b
  · have hnot := hbehind b (List.mem_reverse.1 hb)
    rw [hp] at hnot
    cases hnot

theorem areasById_sorted (components : List Component) :
    (areasById components).Pairwise fun a b => Text.pointsLe a.id b.id = true := by
  rw [areasById, sortById_eq]
  exact List.pairwise_mergeSort (fun a b c => Text.pointsLe_trans a.id b.id c.id)
    (fun a b => Bool.or_eq_true_iff.2 (Text.pointsLe_total a.id b.id)) _

theorem Component.textArea?_id {c : Component} {a : TextArea} (h : c.textArea? = some a) : c.id = a.id := by
  cases c with
  | textArea area =>
    cases h
    rfl
  | button b => cases h
  | dataTable t => cases h

/-- Text areas of components with distinct ids are known by their ids. -/
theorem eq_of_areaId_eq {components : List Component} (hids : (components.map Component.id).Nodup)
    {a b : TextArea} (ha : a ∈ components.filterMap Component.textArea?)
    (hb : b ∈ components.filterMap Component.textArea?) (h : a.id = b.id) : a = b := by
  obtain ⟨c, hc, hca⟩ := List.mem_filterMap.1 ha
  obtain ⟨d, hd, hdb⟩ := List.mem_filterMap.1 hb
  have hid : c.id = d.id := by
    rw [Component.textArea?_id hca, Component.textArea?_id hdb, h]
  have hsame := List.inj_on_of_nodup_map hids hc hd hid
  rw [hsame, hdb] at hca
  exact (Option.some.inj hca).symm

section

variable {components : List Component} (hids : (components.map Component.id).Nodup)
  {nameOf : TextArea → String} {name : String}

include hids in
theorem Foremost.unique {a b : TextArea}
    (ha : Foremost (components.filterMap Component.textArea?) nameOf name a)
    (hb : Foremost (components.filterMap Component.textArea?) nameOf name b) : a = b := by
  apply eq_of_areaId_eq hids ha.mem hb.mem
  apply Text.pointsLe_antisymm
  · exact hb.greatest a ha.mem ha.named
  · exact ha.greatest b hb.mem hb.named

/-- The last claim of a round is that of a text area with the greatest id. -/
theorem foremost_of_lastClaim {key : String} (h : lastClaim nameOf (areasById components) name = some key) :
    ∃ a, Foremost (components.filterMap Component.textArea?) nameOf name a ∧ a.stateKey = key := by
  obtain ⟨a, ha, hkey⟩ := Option.map_eq_some_iff.1 h
  have hlast := le_of_find?_reverse (fun b => (Text.pointsLe_total b.id b.id).elim id id)
    (areasById_sorted components) ha
  refine ⟨a, ⟨?_, ?_, ?_⟩, hkey⟩
  · exact mem_areasById.1 (List.mem_reverse.1 (List.mem_of_find?_eq_some ha))
  · simpa using List.find?_some ha
  · intro b hb hname
    exact hlast b (mem_areasById.2 hb) (by simpa using hname)

include hids in
/-- Where ids are distinct, the last claim of a round is that of the greatest id. -/
theorem lastClaim_eq_some_iff {key : String} :
    lastClaim nameOf (areasById components) name = some key ↔
      ∃ a, Foremost (components.filterMap Component.textArea?) nameOf name a ∧ a.stateKey = key := by
  constructor
  · exact foremost_of_lastClaim
  · rintro ⟨a, ha, rfl⟩
    cases h : lastClaim nameOf (areasById components) name with
    | none => exact absurd ha.named (lastClaim_eq_none_iff.1 h a ha.mem)
    | some key =>
      obtain ⟨b, hb, hkey⟩ := foremost_of_lastClaim h
      rw [← hkey, Foremost.unique hids ha hb]

/-! ## The table -/

include hids in
/-- What the table holds is what the name stands for. -/
theorem get?_aliasTable_iff_stands {found : Option String} :
    (aliasTable components).get? name = found ↔
      NameBelongsTo (components.filterMap Component.textArea?) name found := by
  rw [get?_aliasTable]
  constructor
  · rintro rfl
    cases hkey : lastClaim TextArea.stateKey (areasById components) name with
    | some key =>
      obtain ⟨a, ha, rfl⟩ := foremost_of_lastClaim hkey
      rw [ha.named]
      exact .stateKey ha.mem ha.named
    | none =>
      have hnoKey := lastClaim_eq_none_iff.1 hkey
      cases hlabel : lastClaim TextArea.label (areasById components) name with
      | some key =>
        obtain ⟨a, ha, rfl⟩ := foremost_of_lastClaim hlabel
        exact .label hnoKey ha
      | none =>
        have hnoLabel := lastClaim_eq_none_iff.1 hlabel
        cases hlooseKey : lastClaim (fun a => normalizeKey a.stateKey) (areasById components) name with
        | some key =>
          obtain ⟨a, ha, rfl⟩ := foremost_of_lastClaim hlooseKey
          exact .looseKey hnoKey hnoLabel ha
        | none =>
          have hnoLooseKey := lastClaim_eq_none_iff.1 hlooseKey
          cases hlooseLabel : lastClaim (fun a => normalizeKey a.label) (areasById components) name with
          | some key =>
            obtain ⟨a, ha, rfl⟩ := foremost_of_lastClaim hlooseLabel
            exact .looseLabel hnoKey hnoLabel hnoLooseKey ha
          | none =>
            exact .nothing hnoKey hnoLabel hnoLooseKey (lastClaim_eq_none_iff.1 hlooseLabel)
  · intro h
    cases h with
    | stateKey mem named =>
      have hentry := get?_aliasTable_stateKey mem
      rwa [named, get?_aliasTable] at hentry
    | label noKey foremost =>
      rw [lastClaim_eq_none_iff.2 noKey, (lastClaim_eq_some_iff hids).2 ⟨_, foremost, rfl⟩]
      rfl
    | looseKey noKey noLabel foremost =>
      rw [lastClaim_eq_none_iff.2 noKey, lastClaim_eq_none_iff.2 noLabel,
        (lastClaim_eq_some_iff hids).2 ⟨_, foremost, rfl⟩]
      rfl
    | looseLabel noKey noLabel noLooseKey foremost =>
      rw [lastClaim_eq_none_iff.2 noKey, lastClaim_eq_none_iff.2 noLabel,
        lastClaim_eq_none_iff.2 noLooseKey, (lastClaim_eq_some_iff hids).2 ⟨_, foremost, rfl⟩]
      rfl
    | nothing noKey noLabel noLooseKey noLooseLabel =>
      rw [lastClaim_eq_none_iff.2 noKey, lastClaim_eq_none_iff.2 noLabel,
        lastClaim_eq_none_iff.2 noLooseKey, lastClaim_eq_none_iff.2 noLooseLabel]
      rfl

include hids in
/-- The order in which components are declared does not matter. -/
theorem aliasTable_eq_of_perm {others : List Component} (h : components.Perm others) :
    aliasTable others = aliasTable components := by
  have hareas : (areasById others).Perm (areasById components) :=
    ((sortById_perm _).trans (h.symm.filterMap _)).trans (sortById_perm _).symm
  -- Both lists are in the order of the ids, and no id occurs twice.
  have hsame : areasById others = areasById components := by
    refine hareas.eq_of_pairwise (fun a b ha hb hab hba => ?_) (areasById_sorted _) (areasById_sorted _)
    apply eq_of_areaId_eq hids
    · exact mem_areasById.1 (hareas.subset ha)
    · exact mem_areasById.1 hb
    · exact Text.pointsLe_antisymm _ _ hab hba
  exact congrArg (fun areas => Table.ofPairs (claims areas)) hsame

end

/-- **What the aliases of components with distinct ids are.**  The table holds for each name what the name
stands for, and the order of the components does not matter.  A state key of a text area resolves to itself,
every name resolves to such a key or to itself, and resolving a second time changes nothing. -/
theorem aliasTable_priority {components : List Component} (hids : (components.map Component.id).Nodup) :
    (∀ name found, (aliasTable components).get? name = found ↔
        NameBelongsTo (components.filterMap Component.textArea?) name found) ∧
      (∀ others, components.Perm others → aliasTable others = aliasTable components) ∧
      (∀ a ∈ components.filterMap Component.textArea?,
        resolve (aliasTable components) a.stateKey = a.stateKey) ∧
      (∀ name, (∃ a ∈ components.filterMap Component.textArea?,
          a.stateKey = resolve (aliasTable components) name) ∨ resolve (aliasTable components) name = name) ∧
      ∀ name, resolve (aliasTable components) (resolve (aliasTable components) name) =
        resolve (aliasTable components) name := by
  refine ⟨fun name found => get?_aliasTable_iff_stands hids, fun others h => aliasTable_eq_of_perm hids h,
    fun a ha => resolve_of_get? (get?_aliasTable_stateKey ha), fun name => ?_,
    resolve_aliasTable_idem components⟩
  rcases resolve_aliasTable_cases components name with ⟨a, ha, hkey, _⟩ | ⟨hself, _⟩
  · exact .inl ⟨a, ha, hkey⟩
  · exact .inr hself

/-- Three text areas that claim one another's names. -/
def totals : List Component :=
  [.textArea ⟨"b", "Total", "sum", ⟨none, none⟩⟩, .textArea ⟨"a", "Total", "count", ⟨none, none⟩⟩,
    .textArea ⟨"c", "total", "note", ⟨none, none⟩⟩]

/-- The label is that of two areas, its loose spelling is the label of a third. -/
theorem aliasTable_priority_totals :
    (totals.map Component.id).Nodup ∧ (aliasTable totals).get? "Total" = some "sum" ∧
      (aliasTable totals).get? "total" = some "note" ∧ aliasTable totals.reverse = aliasTable totals := by
  have hids : (totals.map Component.id).Nodup := by decide
  obtain ⟨hstands, hperm, _⟩ := aliasTable_priority hids
  refine ⟨hids, (hstands _ _).2 ?_, (hstands _ _).2 ?_, hperm _ totals.reverse_perm.symm⟩
  · exact .label (a := ⟨"b", "Total", "sum", ⟨none, none⟩⟩) (by decide)
      ⟨by decide, rfl, by decide⟩
  · exact .label (a := ⟨"c", "total", "note", ⟨none, none⟩⟩) (by decide)
      ⟨by decide, rfl, by decide⟩

end FormFlow
