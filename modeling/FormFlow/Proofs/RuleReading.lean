import FormFlow.Shape

/-!
# What the rules of an output shape ask for

The rules of an output shape are data.  `Rule.demand` says what one rule asks for, with the rules inside
it unread.  The shape that a rule is read as follows from that: the name of a type is compared as text,
and a type that is no text, such as a number or a list, is never shown like one of those names.

## Principal results

* `display_typeWord` — only a text is shown as the name of a type;
* `demand_induct` — induction over a rule and the rules inside it;
* `demand_obj` — what a rule asks for, from the name of its type as text;
* `ofRule_eq` — the shape that a rule is read as, from what the rule asks for.
-/

namespace FormFlow

/-! ## Names of types -/

/-- A character that the text of a number may hold. -/
def isNumberChar (c : Char) : Bool :=
  c.isDigit || ['.', 'e', '+', '-', 'i', 'n', 'f', 'a'].contains c

/-- A text that a number may have. -/
def NumberText (cs : List Char) : Prop := ∀ c ∈ cs, isNumberChar c = true

instance (cs : List Char) : Decidable (NumberText cs) :=
  decidable_of_iff (cs.all isNumberChar = true) List.all_eq_true

theorem numberText_append {cs ds : List Char} :
    NumberText (cs ++ ds) ↔ NumberText cs ∧ NumberText ds :=
  List.forall_mem_append

theorem numberText_cons {c : Char} {cs : List Char} :
    NumberText (c :: cs) ↔ isNumberChar c = true ∧ NumberText cs :=
  List.forall_mem_cons

theorem numberText_zeros (n : Nat) : NumberText (List.replicate n '0') := by
  intro c hc
  rw [List.eq_of_mem_replicate hc]
  decide

theorem numberText_sign (negative : Bool) : NumberText (if negative then ['-'] else []) := by
  cases negative <;> decide

theorem numberText_toDigits (n : Nat) : NumberText (Nat.toDigits 10 n) := by
  intro c hc
  have hdigit := Nat.isDigit_of_mem_toDigits (by omega) (by omega) hc
  simp [isNumberChar, hdigit]

namespace Decimal

theorem numberText_place {digits : List Char} (h : NumberText digits) (whole : Int) :
    NumberText (place digits whole).1 ∧ NumberText (place digits whole).2 := by
  unfold place
  split
  · have hzero : NumberText ['0'] := by decide
    exact ⟨hzero, numberText_append.2 ⟨numberText_zeros _, h⟩⟩
  · refine ⟨numberText_append.2 ⟨fun c hc => ?_, numberText_zeros _⟩, fun c hc => ?_⟩
    · exact h c (List.mem_of_mem_take hc)
    · exact h c (List.mem_of_mem_drop hc)

theorem numberText_exponentText (width : Nat) (e : Int) : NumberText (exponentText width e) := by
  unfold exponentText
  refine numberText_append.2 ⟨numberText_append.2 ⟨?_, numberText_zeros _⟩, numberText_toDigits _⟩
  refine numberText_cons.2 ⟨by decide, numberText_cons.2 ⟨?_, by decide⟩⟩
  split <;> decide

theorem numberText_layout (n : Notation) (d : Figure) : NumberText (n.layout d) := by
  have hplace := fun whole => numberText_place (numberText_toDigits d.digits) whole
  have hpoint : isNumberChar '.' = true := by decide
  unfold Notation.layout
  dsimp only
  split
  · split
    · refine numberText_append.2 ⟨(hplace _).1, ?_⟩
      split <;> decide
    · exact numberText_append.2 ⟨(hplace _).1, numberText_cons.2 ⟨hpoint, (hplace _).2⟩⟩
  · refine numberText_append.2 ⟨numberText_append.2 ⟨(hplace _).1, ?_⟩, numberText_exponentText _ _⟩
    split
    · decide
    · exact numberText_cons.2 ⟨hpoint, (hplace _).2⟩

end Decimal

namespace Json

theorem numberText_intText (n : Int) : NumberText (intText n) := by
  unfold intText
  split
  · exact numberText_cons.2 ⟨by decide, numberText_toDigits _⟩
  · exact numberText_toDigits _

theorem numberText_floatText (x : Float) : NumberText (floatText "inf" "nan" x) := by
  unfold floatText Decimal.Notation.write?
  cases Decimal.Parts.ofFloat x with
  | zero negative => exact numberText_append.2 ⟨numberText_sign _, by decide⟩
  | finite negative magnitude =>
    exact numberText_append.2 ⟨numberText_sign _, Decimal.numberText_layout _ _⟩
  | infinite negative => exact numberText_append.2 ⟨numberText_sign _, by decide⟩
  | notANumber =>
    have hname : NumberText "nan".toList := by decide
    exact hname

/-- The names of the types that a rule can ask for. -/
def typeWords : List String := ["string", "number", "boolean", "object", "array"]

/-- A value is shown as the name of a type only if it is that text. -/
theorem display_typeWord {v : Json} (h : v.display ∈ typeWords) : ∃ s, v = .str s := by
  have hhead : ∀ c, v.display.toList.head? = some c → c ∈ ['s', 'n', 'b', 'o', 'a'] := by
    have hwords : ∀ word ∈ typeWords,
        word.toList.head?.all (['s', 'n', 'b', 'o', 'a'].contains ·) = true := by decide
    intro c hc
    have hword := hwords _ h
    rw [hc] at hword
    exact List.contains_iff_mem.1 hword
  have hletter : ¬ NumberText v.display.toList := by
    have hwords : ∀ word ∈ typeWords, ¬ NumberText word.toList := by decide
    exact hwords _ h
  cases v with
  | str s => exact ⟨s, rfl⟩
  | null => exact absurd (hhead 'N' rfl) (by decide)
  | bool b =>
    cases b with
    | true => exact absurd (hhead 'T' rfl) (by decide)
    | false => exact absurd (hhead 'F' rfl) (by decide)
  | num n =>
    refine absurd ?_ hletter
    rw [display_eq_inspect (by simp)]
    cases n with
    | int n =>
      rw [inspect, String.toList_ofList]
      exact numberText_intText n
    | float x =>
      rw [inspect, String.toList_ofList]
      exact numberText_floatText x
  | arr items =>
    refine absurd (hhead '[' ?_) (by decide)
    rw [display_eq_inspect (by simp), inspect, String.toList_append, String.toList_append]
    rfl
  | obj members =>
    refine absurd (hhead '\x7b' ?_) (by decide)
    rw [display_eq_inspect (by simp), inspect, String.toList_append, String.toList_append]
    rfl

end Json

/-! ## Rules -/

namespace Rule

/-- What one rule asks of a value. -/
inductive Demand where
  /-- A text, within the limits that the members of the rule set. -/
  | text (members : Table Json)
  | number
  | boolean
  /-- An object with a member for each rule. -/
  | object (rules : Table Json)
  /-- A list of items under one rule. -/
  | list (rule : Json)
  | anything

/-- What a rule asks for.  A rule without a type asks for a text; one that is no object, or has an
unknown type, asks for nothing in particular. -/
def demand : Json → Demand
  | .obj members =>
    match Table.get? members "type" with
    | none => .text members
    | some (.str "string") => .text members
    | some (.str "number") => .number
    | some (.str "boolean") => .boolean
    | some (.str "object") =>
      match Table.get? members "shape" with
      | some (.obj rules) => .object rules
      | _ => .anything
    | some (.str "array") => .list ((Table.get? members "items").getD .null)
    | _ => .anything
  | _ => .anything

theorem object_of_demand {rule : Json} {rules : Table Json} (h : demand rule = .object rules) :
    ∃ members, rule = .obj members ∧ Table.get? members "shape" = some (.obj rules) := by
  unfold demand at h
  split at h
  · rename_i members
    refine ⟨members, rfl, ?_⟩
    split at h
    all_goals try cases h
    split at h
    · rename_i hshape
      cases h
      exact hshape
    · cases h
  · cases h

theorem size_lt_of_object {rule : Json} {rules : Table Json} (h : demand rule = .object rules)
    {e : String × Json} (he : e ∈ rules) : e.2.size < rule.size := by
  obtain ⟨members, rfl, hshape⟩ := object_of_demand h
  exact Nat.lt_trans (Json.size_lt_of_mem he) (Json.size_lt_of_mem (Table.mem_of_get? hshape))

theorem list_of_demand {rule item : Json} (h : demand rule = .list item) :
    ∃ members, rule = .obj members ∧ Table.get? members "type" = some (.str "array") ∧
      item = (Table.get? members "items").getD .null := by
  unfold demand at h
  split at h
  · rename_i members
    refine ⟨members, rfl, ?_⟩
    split at h
    all_goals try cases h
    · split at h <;> cases h
    · rename_i htype
      exact ⟨htype, rfl⟩
  · cases h

theorem size_lt_of_item {rule item : Json} (h : demand rule = .list item) :
    item.size < rule.size := by
  obtain ⟨members, rfl, htype, rfl⟩ := list_of_demand h
  cases hitem : Table.get? members "items" with
  | some item => exact Json.size_lt_of_mem (Table.mem_of_get? hitem)
  | none =>
    -- The rule has at least the member that names its type.
    have hlt := Json.size_lt_of_mem (Table.mem_of_get? htype)
    exact Nat.lt_of_le_of_lt (Json.size_pos (.str "array")) hlt

/-- Induction over a rule and the rules inside it. -/
@[elab_as_elim]
theorem demand_induct {P : Json → Prop}
    (step : ∀ rule, (∀ rules, demand rule = .object rules → ∀ e ∈ rules, P e.2) →
      (∀ item, demand rule = .list item → P item) → P rule) (rule : Json) : P rule := by
  induction hsize : rule.size using Nat.strongRecOn generalizing rule with
  | _ size ih =>
    subst hsize
    refine step rule (fun rules hdemand e he => ?_) fun item hdemand => ?_
    · exact ih e.2.size (size_lt_of_object hdemand he) e.2 rfl
    · exact ih item.size (size_lt_of_item hdemand) item rfl

/-! ## Reading rules -/

theorem objectOf_eq (members : Table Json) :
    Shape.objectOf members =
      match members.get? "shape" with
      | some (.obj rules) => .object (Shape.ofMembers rules)
      | _ => .anything := by
  induction members with
  | nil => rfl
  | cons m members ih =>
    obtain ⟨k, v⟩ := m
    unfold Shape.objectOf
    rw [Table.get?]
    by_cases hk : k = "shape"
    · rw [if_pos hk, if_pos hk]
      cases v <;> rfl
    · rw [if_neg hk, if_neg hk]
      exact ih

theorem itemOf_eq (members : Table Json) :
    Shape.itemOf members = Shape.ofRule ((members.get? "items").getD .null) := by
  induction members with
  | nil => rfl
  | cons m members ih =>
    obtain ⟨k, v⟩ := m
    rw [Shape.itemOf, Table.get?]
    by_cases hk : k = "items"
    · rw [if_pos hk, if_pos hk]
      rfl
    · rw [if_neg hk, if_neg hk]
      exact ih

/-- What a rule asks for is decided by the name of its type as text. -/
theorem demand_obj (members : Table Json) :
    demand (.obj members) =
      match Shape.typeName members with
      | "string" => .text members
      | "number" => .number
      | "boolean" => .boolean
      | "object" =>
        match members.get? "shape" with
        | some (.obj rules) => .object rules
        | _ => .anything
      | "array" => .list ((members.get? "items").getD .null)
      | _ => .anything := by
  unfold demand Shape.typeName
  dsimp only
  cases htype : Table.get? members "type" with
  | none => rfl
  | some v =>
    by_cases hword : v.display ∈ Json.typeWords
    · obtain ⟨s, rfl⟩ := Json.display_typeWord hword
      rw [Json.display_str] at hword
      simp only [Json.typeWords, List.mem_cons, List.not_mem_nil, or_false] at hword
      rcases hword with rfl | rfl | rfl | rfl | rfl
      case inr.inr.inr.inl => cases Table.get? members "shape" with
        | none => rfl
        | some w => cases w <;> rfl
      all_goals rfl
    · -- No type has the name, and so none is the text.
      have hname : ∀ word ∈ Json.typeWords, v.display ≠ word := by
        rintro word hmem rfl
        exact hword hmem
      have hne : ∀ word ∈ Json.typeWords, v ≠ .str word := by
        rintro word hmem rfl
        exact hword hmem
      simp only [Json.typeWords, List.forall_mem_cons] at hname hne
      split <;> simp_all

/-- The shape that a rule is read as. -/
theorem ofRule_eq (rule : Json) :
    Shape.ofRule rule =
      match demand rule with
      | .text members =>
        .text (Shape.bound? members "minLength") (Shape.bound? members "maxLength")
          (Shape.allowed members)
      | .number => .number
      | .boolean => .boolean
      | .object rules => .object (Shape.ofMembers rules)
      | .list item => .list (Shape.ofRule item)
      | .anything => .anything := by
  cases rule with
  | obj members =>
    rw [Shape.ofRule, demand_obj, objectOf_eq, itemOf_eq]
    generalize Shape.typeName members = word
    split
    case h_4 => split <;> simp_all
    all_goals simp_all
  | _ => rfl

end Rule

end FormFlow
