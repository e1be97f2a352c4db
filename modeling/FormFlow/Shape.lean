import FormFlow.Json.Display
import FormFlow.Schema.Scalar

/-!
# Output shapes

A shape is plain data that describes an object: each member names a field and describes its value by a
rule with a `type`.  `Shape.ofRule` reads a rule, and `Shape.check` checks a value against it without
any conversion and keeps of each described object the described fields only.  A rule that is no object,
or has an unknown type, accepts anything.

Each rule becomes a type before anything is checked, and that of an object has a name, put together from the names
of the fields that lead to it.  `Shape.fault?` says why a rule gets no type.

## Principal results

* `checkFields_keys` — a checked object has exactly the described fields, in their order.
-/

namespace FormFlow

/-- What a value must look like. -/
inductive Shape where
  /-- A string with bounds on its length in characters, and the strings allowed if any are listed. -/
  | text (least most : Option Int) (allowed : List String)
  /-- An integer or a float. -/
  | number
  | boolean
  /-- An object with at least these fields. -/
  | object (fields : List (String × Shape))
  /-- A list of items of one shape. -/
  | list (item : Shape)
  | anything
deriving Inhabited

namespace Shape

open Schema

/-! ## Reading rules -/

/-- The bound that a member gives: an integer, or a boolean counted as zero or one. -/
def bound? (members : Table Json) (name : String) : Option Int :=
  match members.get? name with
  | some (.num (.int n)) => some n
  | some (.bool b) => some (if b then 1 else 0)
  | _ => none

/-- The values that a rule lists as allowed. -/
def listed (members : Table Json) : List Json :=
  match members.get? "enum" with
  | some (.arr items) => items
  | _ => []

/-- The strings that a rule lists as allowed. -/
def allowed (members : Table Json) : List String := (listed members).map Json.display

/-- The type that a rule names; without one it is a string. -/
def typeName (members : Table Json) : String :=
  match members.get? "type" with
  | none => "string"
  | some v => v.display

mutual
/-- The shape that a rule describes. -/
def ofRule : Json → Shape
  | .obj members =>
    match typeName members with
    | "string" => text (bound? members "minLength") (bound? members "maxLength") (allowed members)
    | "number" => number
    | "boolean" => boolean
    | "object" => objectOf members
    | "array" => list (itemOf members)
    | _ => anything
  | _ => anything
/-- The object that the `shape` member of a rule describes. -/
def objectOf : List (String × Json) → Shape
  | [] => anything
  | (k, v) :: rest =>
    if k = "shape" then
      match v with
      | .obj fields => object (ofMembers fields)
      | _ => anything
    else objectOf rest
/-- The shape that the `items` member of a rule describes. -/
def itemOf : List (String × Json) → Shape
  | [] => anything
  | (k, v) :: rest => if k = "items" then ofRule v else itemOf rest
/-- The fields that the members of a shape describe. -/
def ofMembers : List (String × Json) → List (String × Shape)
  | [] => []
  | (k, v) :: rest => (k, ofRule v) :: ofMembers rest
end

/-! ## The types of rules -/

/-- The name of a type may hold no null character. -/
def nameFault? (name : String) : Option ValueError := if '\x00' ∈ name.toList then some .nullName else none

/-- The type that a rule names is compared as text, as are the values that it lists. -/
def textFault? (values : List Json) : Option ValueError :=
  if ∀ v ∈ values, v.Writable then none else some .longInteger

mutual
/-- Why a rule gets no type under a name; the first fault counts. -/
def fault? (name : String) : Json → Option ValueError
  | .obj members =>
    (textFault? (Table.get? members "type").toList).or
      (match typeName members with
        | "string" => textFault? (listed members)
        | "object" => objectFault? name members
        | "array" => itemFault? (name ++ "Item") members
        | _ => none)
  | _ => none
/-- Why the object that the `shape` member of a rule describes gets no type: a fault of a field, or its name. -/
def objectFault? (name : String) : List (String × Json) → Option ValueError
  | [] => none
  | (k, v) :: rest =>
    if k = "shape" then
      match v with
      | .obj fields => (fieldsFault? name fields).or (nameFault? name)
      | _ => none
    else objectFault? name rest
/-- Why the items that the `items` member of a rule describes get no type. -/
def itemFault? (name : String) : List (String × Json) → Option ValueError
  | [] => none
  | (k, v) :: rest => if k = "items" then fault? name v else itemFault? name rest
/-- Why the fields of an object get no type; the name of a field is joined to the object's. -/
def fieldsFault? (name : String) : List (String × Json) → Option ValueError
  | [] => none
  | (k, v) :: rest => (fault? (name ++ "_" ++ k) v).or (fieldsFault? name rest)
end

/-- A length bound that can be kept: it is not negative and fits sixty-four bits. -/
def isBound : Option Int → Bool
  | none => true
  | some n => decide (0 ≤ n) && decide (n < 0x10000000000000000)

mutual
/-- Every length bound inside a shape can be kept. -/
def wellBounded : Shape → Bool
  | text least most _ => isBound least && isBound most
  | object fields => allWellBounded fields
  | list item => wellBounded item
  | _ => true
/-- Every length bound inside the fields can be kept. -/
def allWellBounded : List (String × Shape) → Bool
  | [] => true
  | (_, s) :: rest => wellBounded s && allWellBounded rest
end

/-! ## Checking values -/

/-- A string against bounds and allowed strings: the greatest length first, then the least, then the
list. -/
def checkText (least most : Option Int) (allowed : List String) (s : String) : Checked Json :=
  if most.any fun n => n < (s.length : Int) then .fail (.textTooLong (most.getD 0).toNat)
  else if least.any fun n => (s.length : Int) < n then .fail (.textTooShort (least.getD 0).toNat)
  else if !allowed.isEmpty && !allowed.contains s then .fail (.notListed allowed)
  else .ok (.str s)

mutual
/-- Check a value against a shape; the result is the value without undescribed members. -/
def check : Shape → Json → Checked Json
  | anything, v => .ok v
  | text least most allowed, .str s => checkText least most allowed s
  | text .., _ => .fail .notString
  | number, .num n => .ok (.num n)
  | number, _ =>
    .issues [⟨[.name "int"], .notStrictInteger⟩, ⟨[.name "float"], .notStrictFloat⟩]
  | boolean, .bool b => .ok (.bool b)
  | boolean, _ => .fail .notBoolean
  | object fields, .obj members => .map .obj (checkFields fields members)
  | object _, _ => .fail .notMapping
  | list item, .arr items => .map .arr (.each (fun v => check item v) 0 items)
  | list _, _ => .fail .notList
/-- Check the described fields of an object, in the order of the description. -/
def checkFields : List (String × Shape) → List (String × Json) → Checked (List (String × Json))
  | [], _ => .ok []
  | (k, s) :: rest, members =>
    let here :=
      match Table.get? members k with
      | some v => check s v
      | none => .fail .missing
    .ap (.map (fun v vs => (k, v) :: vs) (here.under (.name k))) (checkFields rest members)
end

/-- A checked object has exactly the described fields, in the order of the description. -/
theorem checkFields_keys {fields : List (String × Shape)} {members kept : List (String × Json)}
    (h : checkFields fields members = .ok kept) : kept.map (·.1) = fields.map (·.1) := by
  induction fields generalizing kept with
  | nil =>
    simp only [checkFields, Checked.ok.injEq] at h
    simp [← h]
  | cons f rest ih =>
    obtain ⟨k, s⟩ := f
    simp only [checkFields, Checked.ap_ok_iff, Checked.map_ok_iff] at h
    obtain ⟨g, vs, ⟨v, _, rfl⟩, hvs, rfl⟩ := h
    simp [ih hvs]

end Shape

/-- Why an output was refused. -/
inductive OutputError where
  /-- The shape has no type. -/
  | value (error : ValueError)
  /-- A length bound of the shape cannot be kept. -/
  | badBound
  /-- The value does not conform to the shape. -/
  | mismatch (found : List Schema.Issue)
deriving DecidableEq

/-- The name of the type of a whole output. -/
def outputName : String := "PromptOutput"

/-- Check a value against a shape given as data. -/
def validateOutput (shape : Table Json) (payload : Json) : Except OutputError Json :=
  match Shape.fieldsFault? outputName shape with
  | some error => .error (.value error)
  | none =>
    let fields := Shape.ofMembers shape
    if Shape.allWellBounded fields then
      match Shape.check (.object fields) payload with
      | .ok v => .ok v
      | .issues found => .error (.mismatch found)
    else .error .badBound

end FormFlow
