import FormFlow.Json

/-!
# Checking untyped values

Reading an untyped value collects every issue instead of stopping at the first.  An issue has the path
to the value at fault and the problem with it.  `Checked` is the applicative of such readings: the
issues of independent parts are joined in order.

## Principal results

* `ap_ok_iff`, `seq_ok_iff` — a joined reading succeeds exactly when both parts do;
* `map_ok_iff`, `andThen_ok_iff` — what a further step makes of a successful reading;
* `each_ok_iff`, `eachMember_ok_iff` — a list is read exactly when every item is, and a mapping when every
  value is.
-/

namespace FormFlow

namespace Schema

/-! ## Issues -/

/-- A step on the way to a value. -/
inductive PathStep where
  | name (text : String)
  | index (i : Nat)
deriving DecidableEq

/-- A step as text. -/
def PathStep.text : PathStep → String
  | name text => text
  | index i => toString i

/-- What is wrong with a value. -/
inductive Problem where
  | missing
  | notModel (typeName : String)
  | notTagged
  | noTag (discriminator : String)
  | unknownTag (discriminator shown : String) (expected : List String)
  | notAmong (expected : List String)
  | notString
  | textTooShort (least : Nat)
  | textTooLong (most : Nat)
  | notList
  | notMapping
  | tooFewItems (least actual : Nat)
  | notInteger
  | integerText
  | integerTextSize
  | fractional
  | notFinite
  | notNumber
  | numberText
  | notBoolean
  | booleanText
  | notAbove (bound : Nat)
  | belowBound (bound : Nat)
  | aboveBound (bound : Nat)
  | notListed (allowed : List String)
  | notStrictInteger
  | notStrictFloat
deriving DecidableEq

/-- A text between single quotes. -/
def tick (s : String) : String := "'" ++ s ++ "'"

/-- Alternatives: commas between all but the last two, `or` between those. -/
def alternatives : List String → String
  | [] => ""
  | [a] => a
  | [a, b] => a ++ " or " ++ b
  | a :: rest => a ++ ", " ++ alternatives rest

/-- A count with its noun. -/
def counted (n : Nat) (noun : String) : String :=
  toString n ++ " " ++ noun ++ if n = 1 then "" else "s"

namespace Problem

/-- The name of the kind of problem. -/
def kind : Problem → String
  | missing => "missing"
  | notModel _ => "model_type"
  | notTagged => "model_attributes_type"
  | noTag _ => "union_tag_not_found"
  | unknownTag .. => "union_tag_invalid"
  | notAmong _ => "literal_error"
  | notString => "string_type"
  | textTooShort _ => "string_too_short"
  | textTooLong _ => "string_too_long"
  | notList => "list_type"
  | notMapping => "dict_type"
  | tooFewItems .. => "too_short"
  | notInteger => "int_type"
  | integerText => "int_parsing"
  | integerTextSize => "int_parsing_size"
  | fractional => "int_from_float"
  | notFinite => "finite_number"
  | notNumber => "float_type"
  | numberText => "float_parsing"
  | notBoolean => "bool_type"
  | booleanText => "bool_parsing"
  | notAbove _ => "greater_than"
  | belowBound _ => "greater_than_equal"
  | aboveBound _ => "less_than_equal"
  | notListed _ => "value_error"
  | notStrictInteger => "int_type"
  | notStrictFloat => "float_type"

/-- The wording of a problem. -/
def message : Problem → String
  | missing => "Field required"
  | notModel typeName => "Input should be a valid dictionary or instance of " ++ typeName
  | notTagged => "Input should be a valid dictionary or object to extract fields from"
  | noTag discriminator => "Unable to extract tag using discriminator " ++ tick discriminator
  | unknownTag discriminator shown expected =>
    "Input tag " ++ tick shown ++ " found using " ++ tick discriminator ++
      " does not match any of the expected tags: " ++
      String.intercalate ", " (expected.map tick)
  | notAmong expected => "Input should be " ++ alternatives (expected.map tick)
  | notString => "Input should be a valid string"
  | textTooShort least => "String should have at least " ++ counted least "character"
  | textTooLong most => "String should have at most " ++ counted most "character"
  | notList => "Input should be a valid list"
  | notMapping => "Input should be a valid dictionary"
  | tooFewItems least actual =>
    "List should have at least " ++ counted least "item" ++ " after validation, not " ++
      toString actual
  | notInteger | notStrictInteger => "Input should be a valid integer"
  | integerText => "Input should be a valid integer, unable to parse string as an integer"
  | integerTextSize => "Unable to parse input string as an integer, exceeded maximum size"
  | fractional => "Input should be a valid integer, got a number with a fractional part"
  | notFinite => "Input should be a finite number"
  | notNumber | notStrictFloat => "Input should be a valid number"
  | numberText => "Input should be a valid number, unable to parse string as a number"
  | notBoolean => "Input should be a valid boolean"
  | booleanText => "Input should be a valid boolean, unable to interpret input"
  | notAbove bound => "Input should be greater than " ++ toString bound
  | belowBound bound => "Input should be greater than or equal to " ++ toString bound
  | aboveBound bound => "Input should be less than or equal to " ++ toString bound
  | notListed allowed => "Value error, Expected one of: " ++ String.intercalate ", " allowed

end Problem

/-- A problem and where it lies. -/
structure Issue where
  path : List PathStep
  problem : Problem
deriving DecidableEq

/-- The path as text, its steps joined by points. -/
def Issue.pathText (issue : Issue) : String :=
  String.intercalate "." (issue.path.map PathStep.text)

/-! ## Readings -/

/-- A reading: a result, or all issues in order. -/
inductive Checked (α : Type) where
  | ok (result : α)
  | issues (found : List Issue)
deriving DecidableEq

namespace Checked

variable {α β : Type}

/-- A reading with one problem, at the value itself. -/
def fail (problem : Problem) : Checked α := issues [⟨[], problem⟩]

/-- Join a function and an argument, collecting the issues of both. -/
def ap : Checked (α → β) → Checked α → Checked β
  | ok f, ok a => ok (f a)
  | ok _, issues found => issues found
  | issues found, ok _ => issues found
  | issues found, issues more => issues (found ++ more)

/-- Apply a function to the result. -/
def map (f : α → β) : Checked α → Checked β
  | ok a => ok (f a)
  | issues found => issues found

/-- Read further from a result. -/
def andThen : Checked α → (α → Checked β) → Checked β
  | ok a, f => f a
  | issues found, _ => issues found

/-- A reading of the value one step further inside. -/
def under (step : PathStep) : Checked α → Checked α
  | ok a => ok a
  | issues found => issues (found.map fun issue => { issue with path := step :: issue.path })

instance : Functor Checked where
  map := map

instance : Applicative Checked where
  pure := ok
  seq f x := ap f (x ())

/-- A joined reading succeeds exactly when both parts do. -/
theorem ap_ok_iff {f : Checked (α → β)} {x : Checked α} {b : β} :
    ap f x = ok b ↔ ∃ g a, f = ok g ∧ x = ok a ∧ g a = b := by
  cases f <;> cases x <;> simp [ap]

/-- Read the items of a list, numbered from `start`. -/
def each (read : α → Checked β) : Nat → List α → Checked (List β)
  | _, [] => ok []
  | start, a :: as =>
    ap (map List.cons ((read a).under (.index start))) (each read (start + 1) as)

/-- Read the values of a mapping. -/
def eachMember (read : α → Checked β) : List (String × α) → Checked (List (String × β))
  | [] => ok []
  | (k, a) :: rest =>
    ap (map (fun b bs => (k, b) :: bs) ((read a).under (.name k))) (eachMember read rest)

theorem under_ok_iff {step : PathStep} {x : Checked α} {a : α} :
    x.under step = ok a ↔ x = ok a := by
  cases x <;> simp [under]

theorem map_ok_iff {f : α → β} {x : Checked α} {b : β} :
    map f x = ok b ↔ ∃ a, x = ok a ∧ f a = b := by
  cases x <;> simp [map]

theorem andThen_ok_iff {x : Checked α} {f : α → Checked β} {b : β} :
    x.andThen f = ok b ↔ ∃ a, x = ok a ∧ f a = ok b := by
  cases x <;> simp [andThen]

/-- Joining in applicative form. -/
theorem seq_ok_iff {f : Checked (α → β)} {x : Checked α} {b : β} :
    (f <*> x) = ok b ↔ ∃ g a, f = ok g ∧ x = ok a ∧ g a = b :=
  ap_ok_iff

/-- Mapping in functor form. -/
theorem fmap_ok_iff {f : α → β} {x : Checked α} {b : β} :
    (f <$> x) = ok b ↔ ∃ a, x = ok a ∧ f a = b :=
  map_ok_iff

/-- A list is read exactly when every item is, one by one. -/
theorem each_ok_iff {read : α → Checked β} {start : Nat} {as : List α} {bs : List β} :
    each read start as = ok bs ↔ as.map read = bs.map ok := by
  induction as generalizing start bs with
  | nil => cases bs <;> simp [each]
  | cons a as ih =>
    rw [each, ap_ok_iff]
    constructor
    · rintro ⟨g, tail, hg, htail, rfl⟩
      obtain ⟨b, hb, rfl⟩ := map_ok_iff.1 hg
      rw [List.map_cons, List.map_cons, ih.1 htail, under_ok_iff.1 hb]
    · intro h
      cases bs with
      | nil => simp at h
      | cons b bs =>
        simp only [List.map_cons, List.cons.injEq] at h
        exact ⟨_, _, map_ok_iff.2 ⟨b, under_ok_iff.2 h.1, rfl⟩, ih.2 h.2, rfl⟩

/-- A mapping is read exactly when every value is, under its key. -/
theorem eachMember_ok_iff {read : α → Checked β} {members : List (String × α)}
    {t : List (String × β)} :
    eachMember read members = ok t ↔
      members.map (fun m => (m.1, read m.2)) = t.map fun e => (e.1, ok e.2) := by
  induction members generalizing t with
  | nil => cases t <;> simp [eachMember]
  | cons m members ih =>
    obtain ⟨k, a⟩ := m
    rw [eachMember, ap_ok_iff]
    constructor
    · rintro ⟨g, rest, hg, hrest, rfl⟩
      obtain ⟨b, hb, rfl⟩ := map_ok_iff.1 hg
      rw [List.map_cons, List.map_cons, ih.1 hrest, under_ok_iff.1 hb]
    · intro h
      cases t with
      | nil => simp at h
      | cons e t =>
        obtain ⟨l, b⟩ := e
        simp only [List.map_cons, List.cons.injEq, Prod.mk.injEq] at h
        obtain ⟨⟨rfl, hb⟩, hrest⟩ := h
        exact ⟨_, _, map_ok_iff.2 ⟨b, under_ok_iff.2 hb, rfl⟩, ih.2 hrest, rfl⟩

end Checked

end Schema

end FormFlow
