import FormFlow.Alias

/-!
# Which text area answers to a name

The alias table is written in four rounds, and a later entry replaces an earlier one.  So a name belongs
to the last text area, in the order of ids, that claims it in the strongest round in which anyone does.

## Principal results

* `get?_aliasTable` — the four rounds, strongest first;
* `get?_aliasTable_eq_none_iff` — a name is in the table exactly when some text area claims it;
* `resolve_eq_self_iff` — the names that stand for themselves;
* `resolve_aliasTable_idem` — resolving a name twice.
-/

namespace FormFlow

/-! ## The four rounds -/

/-- The state key of the last text area with a name in one round of claims. -/
def lastClaim (nameOf : TextArea → String) (areas : List TextArea) (name : String) : Option String :=
  (areas.reverse.find? fun a => nameOf a = name).map TextArea.stateKey

/-- The text areas among components, in the order of their ids. -/
def areasById (components : List Component) : List TextArea :=
  sortById (components.filterMap Component.textArea?)

theorem mem_areasById {components : List Component} {a : TextArea} :
    a ∈ areasById components ↔ a ∈ components.filterMap Component.textArea? :=
  (sortById_perm _).mem_iff

theorem lastClaim_eq_some {nameOf : TextArea → String} {components : List Component} {name key : String}
    (h : lastClaim nameOf (areasById components) name = some key) :
    ∃ a ∈ components.filterMap Component.textArea?, nameOf a = name ∧ a.stateKey = key := by
  obtain ⟨a, ha, hkey⟩ := Option.map_eq_some_iff.1 h
  have hmem := List.mem_reverse.1 (List.mem_of_find?_eq_some ha)
  have hname := List.find?_some ha
  exact ⟨a, mem_areasById.1 hmem, by simpa using hname, hkey⟩

theorem lastClaim_eq_none_iff {nameOf : TextArea → String} {components : List Component} {name : String} :
    lastClaim nameOf (areasById components) name = none ↔
      ∀ a ∈ components.filterMap Component.textArea?, nameOf a ≠ name := by
  simp only [lastClaim, Option.map_eq_none_iff, List.find?_eq_none, List.mem_reverse, decide_eq_true_eq,
    mem_areasById, ne_eq]

theorem find?_claims (nameOf : TextArea → String) (areas : List TextArea) (name : String) :
    (((areas.map fun a => (nameOf a, a.stateKey)).reverse).find? fun e => e.1 = name).map (·.2) =
      lastClaim nameOf areas name := by
  rw [← List.map_reverse, List.find?_map, Option.map_map]
  rfl

/-- **The four rounds**, strongest first: state keys, labels, loose spellings of state keys, loose
spellings of labels. -/
theorem get?_aliasTable (components : List Component) (name : String) :
    (aliasTable components).get? name =
      (lastClaim TextArea.stateKey (areasById components) name).or
        ((lastClaim TextArea.label (areasById components) name).or
          ((lastClaim (fun a => normalizeKey a.stateKey) (areasById components) name).or
            (lastClaim (fun a => normalizeKey a.label) (areasById components) name))) := by
  unfold aliasTable claims areasById
  rw [Table.get?_ofPairs]
  simp only [List.reverse_append, List.find?_append, Option.map_or, find?_claims]

/-! ## Claims -/

/-- A text area claims a name: as its state key or label, or as the loose spelling of either. -/
def TextArea.Claims (a : TextArea) (name : String) : Prop :=
  a.stateKey = name ∨ a.label = name ∨ normalizeKey a.stateKey = name ∨ normalizeKey a.label = name

section

variable {components : List Component} {name key : String}

theorem get?_aliasTable_eq_some (h : (aliasTable components).get? name = some key) :
    ∃ a ∈ components.filterMap Component.textArea?, a.stateKey = key ∧ a.Claims name := by
  rw [get?_aliasTable] at h
  simp only [Option.or_eq_some_iff] at h
  rcases h with h | ⟨_, h | ⟨_, h | ⟨_, h⟩⟩⟩
  · obtain ⟨a, ha, hname, hkey⟩ := lastClaim_eq_some h
    exact ⟨a, ha, hkey, .inl hname⟩
  · obtain ⟨a, ha, hname, hkey⟩ := lastClaim_eq_some h
    exact ⟨a, ha, hkey, .inr (.inl hname)⟩
  · obtain ⟨a, ha, hname, hkey⟩ := lastClaim_eq_some h
    exact ⟨a, ha, hkey, .inr (.inr (.inl hname))⟩
  · obtain ⟨a, ha, hname, hkey⟩ := lastClaim_eq_some h
    exact ⟨a, ha, hkey, .inr (.inr (.inr hname))⟩

/-- A name is in the table exactly when some text area claims it. -/
theorem get?_aliasTable_eq_none_iff :
    (aliasTable components).get? name = none ↔
      ∀ a ∈ components.filterMap Component.textArea?, ¬ a.Claims name := by
  rw [get?_aliasTable]
  simp only [Option.or_eq_none_iff, lastClaim_eq_none_iff, TextArea.Claims, not_or]
  constructor
  · rintro ⟨hkey, hlabel, hlooseKey, hlooseLabel⟩ a ha
    exact ⟨hkey a ha, hlabel a ha, hlooseKey a ha, hlooseLabel a ha⟩
  · intro h
    exact ⟨fun a ha => (h a ha).1, fun a ha => (h a ha).2.1, fun a ha => (h a ha).2.2.1,
      fun a ha => (h a ha).2.2.2⟩

/-- The state key of a text area is its own entry. -/
theorem get?_aliasTable_stateKey {a : TextArea}
    (ha : a ∈ components.filterMap Component.textArea?) :
    (aliasTable components).get? a.stateKey = some a.stateKey := by
  rw [get?_aliasTable]
  cases h : lastClaim TextArea.stateKey (areasById components) a.stateKey with
  | none => exact absurd rfl (lastClaim_eq_none_iff.1 h a ha)
  | some key =>
    obtain ⟨b, _, hname, hkey⟩ := lastClaim_eq_some h
    rw [Option.some_or, ← hkey, hname]

/-- A name that does not stand for itself stands for the state key of a text area that claims it or
its loose spelling. -/
theorem resolve_aliasTable_cases (components : List Component) (name : String) :
    (∃ a ∈ components.filterMap Component.textArea?,
        a.stateKey = resolve (aliasTable components) name ∧
          (a.Claims name ∨ a.Claims (normalizeKey name))) ∨
      (resolve (aliasTable components) name = name ∧
        ∀ a ∈ components.filterMap Component.textArea?,
          ¬ a.Claims name ∧ ¬ a.Claims (normalizeKey name)) := by
  unfold resolve
  cases hname : (aliasTable components).get? name with
  | some key =>
    obtain ⟨a, ha, hkey, hclaim⟩ := get?_aliasTable_eq_some hname
    exact .inl ⟨a, ha, hkey, .inl hclaim⟩
  | none =>
    cases hloose : (aliasTable components).get? (normalizeKey name) with
    | some key =>
      obtain ⟨a, ha, hkey, hclaim⟩ := get?_aliasTable_eq_some hloose
      exact .inl ⟨a, ha, hkey, .inr hclaim⟩
    | none =>
      rw [get?_aliasTable_eq_none_iff] at hname hloose
      exact .inr ⟨rfl, fun a ha => ⟨hname a ha, hloose a ha⟩⟩

/-- The names that stand for themselves: the state keys of text areas, and what no text area claims,
neither as it is nor in its loose spelling. -/
theorem resolve_eq_self_iff :
    resolve (aliasTable components) name = name ↔
      (∃ a ∈ components.filterMap Component.textArea?, a.stateKey = name) ∨
        ∀ a ∈ components.filterMap Component.textArea?,
          ¬ a.Claims name ∧ ¬ a.Claims (normalizeKey name) := by
  constructor
  · intro h
    rcases resolve_aliasTable_cases components name with ⟨a, ha, hkey, _⟩ | ⟨_, hfree⟩
    · exact .inl ⟨a, ha, hkey.trans h⟩
    · exact .inr hfree
  · rintro (⟨a, ha, rfl⟩ | hfree)
    · exact resolve_of_get? (get?_aliasTable_stateKey ha)
    · rcases resolve_aliasTable_cases components name with ⟨a, ha, _, hclaim⟩ | ⟨h, _⟩
      · rcases hclaim with hclaim | hclaim
        · exact absurd hclaim (hfree a ha).1
        · exact absurd hclaim (hfree a ha).2
      · exact h

end

/-- A state key stands for itself, and so does a name that stands for nothing else. -/
theorem resolve_aliasTable_idem (components : List Component) (name : String) :
    resolve (aliasTable components) (resolve (aliasTable components) name) =
      resolve (aliasTable components) name := by
  rcases resolve_aliasTable_cases components name with ⟨a, ha, hkey, _⟩ | ⟨hself, _⟩
  · rw [← hkey]
    exact resolve_of_get? (get?_aliasTable_stateKey ha)
  · rw [hself, hself]

end FormFlow
