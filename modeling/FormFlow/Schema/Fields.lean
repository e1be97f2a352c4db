import FormFlow.Json.Display
import FormFlow.Schema

/-!
# Reading fields

A model is an object whose fields are read by name.  A field has a name and may be given under a
second one, which counts only if the first is absent; issues carry the first.  Further members are
ignored.  A tagged value is an object whose tag member selects the model.

## Principal results

* `field?_of_name` — the first name wins;
* `required_ok_iff`, `readModel_ok_iff`, `readTagged_ok_iff` — when a field, a model and a tagged value
  are read;
* `readNonEmptyList_ne_nil` — a list that must hold something does.
-/

namespace FormFlow.Schema

/-- The value of a field under its name, or else under its second name. -/
def field? (members : Table Json) (name second : String) : Option Json :=
  match members.get? name with
  | some v => some v
  | none => members.get? second

theorem field?_of_name {members : Table Json} {name second : String} {v : Json}
    (h : members.get? name = some v) : field? members name second = some v := by
  simp [field?, h]

variable {α : Type}

/-- A field that must be given. -/
def required (members : Table Json) (name second : String) (read : Json → Checked α) : Checked α :=
  Checked.under (.name name) <|
    match field? members name second with
    | some v => read v
    | none => .fail .missing

theorem required_ok_iff {members : Table Json} {name second : String} {read : Json → Checked α}
    {a : α} : required members name second read = .ok a ↔
      ∃ v, field? members name second = some v ∧ read v = .ok a := by
  rw [required, Checked.under_ok_iff]
  cases field? members name second <;> simp [Checked.fail]

/-- A field with a value for when it is absent. -/
def defaulted (members : Table Json) (name second : String) (default : α)
    (read : Json → Checked α) : Checked α :=
  match field? members name second with
  | some v => (read v).under (.name name)
  | none => .ok default

/-- A field that may be absent or null. -/
def optional (members : Table Json) (name second : String) (read : Json → Checked α) :
    Checked (Option α) :=
  match field? members name second with
  | none | some .null => .ok none
  | some v => (Checked.map some (read v)).under (.name name)

/-- The members of an object that is read as a model. -/
def readModel (typeName : String) (read : Table Json → Checked α) : Json → Checked α
  | .obj members => read members
  | _ => .fail (.notModel typeName)

theorem readModel_ok_iff {typeName : String} {read : Table Json → Checked α} {v : Json} {a : α} :
    readModel typeName read v = .ok a ↔ ∃ members, v = .obj members ∧ read members = .ok a := by
  cases v <;> simp [readModel, Checked.fail]

/-- The items of a list. -/
def readList (read : Json → Checked α) : Json → Checked (List α)
  | .arr items => Checked.each read 0 items
  | _ => .fail .notList

/-- The items of a list with at least one item. -/
def readNonEmptyList (read : Json → Checked α) (v : Json) : Checked (List α) :=
  (readList read v).andThen fun items =>
    if items.isEmpty then .fail (.tooFewItems 1 0) else .ok items

/-- A list that must hold something does. -/
theorem readNonEmptyList_ne_nil {read : Json → Checked α} {v : Json} {as : List α}
    (h : readNonEmptyList read v = .ok as) : as ≠ [] := by
  obtain ⟨items, _, hitems⟩ := Checked.andThen_ok_iff.1 h
  split at hitems
  · cases hitems
  · rename_i hne
    cases hitems
    simpa using hne

/-- The members of a mapping. -/
def readMapping (read : Json → Checked α) : Json → Checked (Table α)
  | .obj members => Checked.eachMember read members
  | _ => .fail .notMapping

/-- A mapping to any values. -/
def readFreeMapping : Json → Checked (Table Json)
  | .obj members => .ok members
  | _ => .fail .notMapping

/-- One of a list of words, each standing for a value. -/
def readWord (words : List (String × α)) (v : Json) : Checked α :=
  match v with
  | .str s =>
    match Table.get? words s with
    | some a => .ok a
    | none => .fail (.notAmong (Table.keys words))
  | _ => .fail (.notAmong (Table.keys words))

/-- A tagged value: the tag selects how the members are read, and is a step of the path. -/
def readTagged (discriminator : String) (variants : List (String × (Table Json → Checked α))) :
    Json → Checked α
  | .obj members =>
    match Table.get? members discriminator with
    | none => .fail (.noTag discriminator)
    | some tag =>
      let unknown : Checked α := .fail (.unknownTag discriminator tag.shown (Table.keys variants))
      match tag with
      | .str name =>
        match Table.get? variants name with
        | some read => (read members).under (.name name)
        | none => unknown
      | _ => unknown
  | _ => .fail .notTagged

theorem readTagged_ok_iff {discriminator : String}
    {variants : List (String × (Table Json → Checked α))} {v : Json} {a : α} :
    readTagged discriminator variants v = .ok a ↔
      ∃ members tag read, v = .obj members ∧ Table.get? members discriminator = some (.str tag) ∧
        Table.get? variants tag = some read ∧ read members = .ok a := by
  cases v with
  | obj members =>
    unfold readTagged
    cases htag : Table.get? members discriminator with
    | none => simp [Checked.fail, htag]
    | some tag =>
      cases tag with
      | str name => cases hread : Table.get? variants name <;> simp [Checked.fail, Checked.under_ok_iff, htag, hread]
      | _ => simp [Checked.fail, htag]
  | _ => simp [readTagged, Checked.fail]

end FormFlow.Schema
