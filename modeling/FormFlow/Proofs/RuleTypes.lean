import FormFlow.Proofs.RuleReading

/-!
# The rules that get a type

Before a value is checked, its rule becomes a type.  That fails for a rule that names its type, or lists what it
allows, by an integer of too many digits, and for an object whose type would have a name with a null character.
The name holds the names of all fields that lead to the object, so it is enough to look at each field with such a
name: its rule may describe no object, and no list of objects.

## Principal results

* `fault?_eq_none_iff` — a rule gets a type under a name exactly if it is typed, and its name fits;
* `fieldsFault?_eq_none_iff` — the shapes of outputs that get a type.
-/

namespace FormFlow

namespace Rule

/-- A rule describes an object, or a list of values that do so. -/
def NamesType (rule : Json) : Prop :=
  match _h : demand rule with
  | .object _ => True
  | .list item => NamesType item
  | .text _ | .number | .boolean | .anything => False
termination_by rule.size
decreasing_by
  exact size_lt_of_item _h

/-- Every rule inside a rule gets a type: what it compares as text has a text, and no field with a null character
in its name describes an object. -/
def Typed (rule : Json) : Prop :=
  (∀ v, rule.get? "type" = some v → v.Writable) ∧
    match _h : demand rule with
    | .text members => ∀ v ∈ Shape.listed members, v.Writable
    | .object rules => ∀ e, e ∈ rules → ('\x00' ∈ e.1.toList → ¬ NamesType e.2) ∧ Typed e.2
    | .list item => Typed item
    | .number | .boolean | .anything => True
termination_by rule.size
decreasing_by
  · rename_i he
    exact size_lt_of_object _h he
  · exact size_lt_of_item _h

/-! The two again, with what the rule asks for as an ordinary case distinction. -/

theorem namesType_iff (rule : Json) :
    NamesType rule ↔
      match demand rule with
      | .object _ => True
      | .list item => NamesType item
      | .text _ | .number | .boolean | .anything => False := by
  rw [NamesType]
  split <;> rename_i h <;> rw [h]

theorem typed_iff (rule : Json) :
    Typed rule ↔
      (∀ v, rule.get? "type" = some v → v.Writable) ∧
        match demand rule with
        | .text members => ∀ v ∈ Shape.listed members, v.Writable
        | .object rules => ∀ e ∈ rules, ('\x00' ∈ e.1.toList → ¬ NamesType e.2) ∧ Typed e.2
        | .list item => Typed item
        | .number | .boolean | .anything => True := by
  rw [Typed]
  split <;> rename_i h <;> rw [h]

/-! ## Faults -/

theorem textFault?_eq_none_iff {values : List Json} :
    Shape.textFault? values = none ↔ ∀ v ∈ values, v.Writable := by
  unfold Shape.textFault?
  split <;> simp_all

theorem nameFault?_eq_none_iff {name : String} : Shape.nameFault? name = none ↔ '\x00' ∉ name.toList := by
  unfold Shape.nameFault?
  split <;> simp_all

theorem objectFault?_eq (name : String) (members : Table Json) :
    Shape.objectFault? name members =
      match members.get? "shape" with
      | some (.obj rules) => (Shape.fieldsFault? name rules).or (Shape.nameFault? name)
      | _ => none := by
  induction members with
  | nil => rfl
  | cons m members ih =>
    obtain ⟨k, v⟩ := m
    unfold Shape.objectFault?
    rw [Table.get?]
    by_cases hk : k = "shape"
    · rw [if_pos hk, if_pos hk]
      cases v <;> rfl
    · rw [if_neg hk, if_neg hk]
      exact ih

theorem itemFault?_eq (name : String) (members : Table Json) :
    Shape.itemFault? name members = Shape.fault? name ((members.get? "items").getD .null) := by
  induction members with
  | nil => rfl
  | cons m members ih =>
    obtain ⟨k, v⟩ := m
    rw [Shape.itemFault?, Table.get?]
    by_cases hk : k = "items"
    · rw [if_pos hk, if_pos hk]
      rfl
    · rw [if_neg hk, if_neg hk]
      exact ih

theorem fieldsFault?_eq_none {name : String} {rules : Table Json} :
    Shape.fieldsFault? name rules = none ↔ ∀ e ∈ rules, Shape.fault? (name ++ "_" ++ e.1) e.2 = none := by
  induction rules with
  | nil => simp [Shape.fieldsFault?]
  | cons e rules ih =>
    obtain ⟨k, rule⟩ := e
    rw [Shape.fieldsFault?, Option.or_eq_none_iff, ih, List.forall_mem_cons]

/-- The fault of a rule, from what the rule asks for. -/
theorem fault?_eq (name : String) (rule : Json) :
    Shape.fault? name rule =
      (Shape.textFault? (rule.get? "type").toList).or
        (match demand rule with
          | .text members => Shape.textFault? (Shape.listed members)
          | .object rules => (Shape.fieldsFault? name rules).or (Shape.nameFault? name)
          | .list item => Shape.fault? (name ++ "Item") item
          | .number | .boolean | .anything => none) := by
  cases rule with
  | obj members =>
    rw [Shape.fault?, Json.get?, demand_obj, objectFault?_eq, itemFault?_eq]
    congr 1
    generalize Shape.typeName members = word
    split
    case h_2 => split <;> simp_all
    case h_4 =>
      -- Numbers and booleans need no text, and the others are no type at all.
      by_cases hnumber : word = "number"
      · rw [hnumber]
        rfl
      · by_cases hboolean : word = "boolean"
        · rw [hboolean]
          rfl
        · simp_all
    all_goals simp_all
  | _ => rfl

/-- A rule gets a type under a name exactly if it is typed, and the name can be that of a type if there is need
for one. -/
theorem fault?_eq_none_iff (name : String) (rule : Json) :
    Shape.fault? name rule = none ↔ ('\x00' ∈ name.toList → ¬ NamesType rule) ∧ Typed rule := by
  induction rule using demand_induct generalizing name with
  | step rule hobject hlist =>
    rw [fault?_eq, Option.or_eq_none_iff, textFault?_eq_none_iff, namesType_iff, typed_iff]
    have htype : (∀ v ∈ (rule.get? "type").toList, v.Writable) ↔ ∀ v, rule.get? "type" = some v → v.Writable := by
      simp only [Option.mem_toList]
    rw [htype]
    cases hdemand : demand rule with
    | text members => simp [textFault?_eq_none_iff]
    | object rules =>
      dsimp only
      have hname (k : String) : '\x00' ∈ (name ++ "_" ++ k).toList ↔ '\x00' ∈ name.toList ∨ '\x00' ∈ k.toList := by
        simp
      have hfields : Shape.fieldsFault? name rules = none ↔
          ∀ e ∈ rules, ('\x00' ∈ name.toList ∨ '\x00' ∈ e.1.toList → ¬ NamesType e.2) ∧ Typed e.2 := by
        rw [fieldsFault?_eq_none]
        refine forall₂_congr fun e he => ?_
        rw [hobject rules hdemand e he, hname]
      rw [Option.or_eq_none_iff, hfields, nameFault?_eq_none_iff]
      constructor
      · rintro ⟨hshown, hrules, hnull⟩
        refine ⟨fun h => absurd h hnull, hshown, fun e he => ?_⟩
        exact ⟨fun h => (hrules e he).1 (.inr h), (hrules e he).2⟩
      · rintro ⟨hnull, hshown, hrules⟩
        have hnull : '\x00' ∉ name.toList := fun h => hnull h trivial
        refine ⟨hshown, fun e he => ⟨?_, (hrules e he).2⟩, hnull⟩
        exact fun h => (hrules e he).1 (h.resolve_left hnull)
    | list item =>
      dsimp only
      rw [hlist item hdemand]
      have hname : '\x00' ∈ (name ++ "Item").toList ↔ '\x00' ∈ name.toList := by simp
      rw [hname]
      exact and_left_comm
    | _ => simp

instance (rule : Json) : Decidable (Typed rule) :=
  decidable_of_iff (Shape.fault? "" rule = none) ((fault?_eq_none_iff "" rule).trans (by simp))

/-- The shapes of outputs that get a type. -/
theorem fieldsFault?_eq_none_iff {shape : Table Json} :
    Shape.fieldsFault? outputName shape = none ↔
      ∀ e ∈ shape, ('\x00' ∈ e.1.toList → ¬ NamesType e.2) ∧ Typed e.2 := by
  have hname : '\x00' ∉ outputName.toList := by decide
  rw [fieldsFault?_eq_none]
  refine forall₂_congr fun e _ => ?_
  rw [fault?_eq_none_iff]
  simp [hname]

end Rule

end FormFlow
