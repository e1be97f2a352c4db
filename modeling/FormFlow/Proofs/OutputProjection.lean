import FormFlow.Proofs.RuleTypes

/-!
# What validating an output accepts, and what it keeps

A value conforms to a rule when it does as the rule asks, down to the rules inside.  The projection of a
value drops the members that no rule names from every object whose members are described, and leaves
everything else as it is.  Validating an output accepts exactly the conforming values and returns their
projection.

## Principal results

* `check_ofRule_iff` — checking accepts what conforms and gives the projection;
* `bounded_iff_wellBounded` — the limits that a shape can keep;
* `Agrees.check_eq` — members that no rule names make no difference;
* `agrees_project` — a value and its projection differ in such members only;
* `validateOutput_value_iff`, `validateOutput_badBound_iff` — the shapes against which nothing can be checked;
* `validateOutput_again` — an output that was validated is validated again unchanged;
* `validateOutput_exact` — all of it, for the shape of an output.
-/

namespace FormFlow

namespace Rule

/-! ## Conforming values and their projection -/

/-- A member gives a whole number; a boolean counts as zero or one. -/
def Gives (members : Table Json) (name : String) (n : Int) : Prop :=
  members.get? name = some (.num (.int n)) ∨
    ∃ b, members.get? name = some (.bool b) ∧ n = if b then 1 else 0

/-- A text keeps the limits of its length and is listed, if anything is. -/
structure TextConforms (members : Table Json) (s : String) : Prop where
  least : ∀ n, Gives members "minLength" n → n ≤ s.length
  most : ∀ n, Gives members "maxLength" n → s.length ≤ n
  listed : ∀ items, members.get? "enum" = some (.arr items) → items ≠ [] →
    ∃ item ∈ items, item.display = s

/-- A value does as a rule asks. -/
def Conforms (rule v : Json) : Prop :=
  match _h : demand rule with
  | .text members => ∃ s, v = .str s ∧ TextConforms members s
  | .number => ∃ n, v = .num n
  | .boolean => ∃ b, v = .bool b
  | .object rules =>
    ∃ members, v = .obj members ∧
      ∀ e, e ∈ rules → ∃ w, Table.get? members e.1 = some w ∧ Conforms e.2 w
  | .list item => ∃ items, v = .arr items ∧ ∀ w ∈ items, Conforms item w
  | .anything => True
termination_by rule.size
decreasing_by
  · rename_i he
    exact size_lt_of_object _h he
  · exact size_lt_of_item _h

/-- The value without the members that no rule names, wherever its members are described.  The others
stand in the order of their rules. -/
def project (rule v : Json) : Json :=
  match _h : demand rule with
  | .object rules =>
    match v with
    | .obj members =>
      .obj (rules.attach.filterMap fun e =>
        (Table.get? members e.1.1).map fun w => (e.1.1, project e.1.2 w))
    | v => v
  | .list item =>
    match v with
    | .arr items => .arr (items.map fun w => project item w)
    | v => v
  | .text _ | .number | .boolean | .anything => v
termination_by rule.size
decreasing_by
  · exact size_lt_of_object _h e.2
  · exact size_lt_of_item _h

/-- Every limit on a length inside a rule is a natural number of at most sixty-four bits. -/
def Bounded (rule : Json) : Prop :=
  match _h : demand rule with
  | .text members =>
    ∀ n, Gives members "minLength" n ∨ Gives members "maxLength" n → 0 ≤ n ∧ n < 0x10000000000000000
  | .object rules => ∀ e, e ∈ rules → Bounded e.2
  | .list item => Bounded item
  | .number | .boolean | .anything => True
termination_by rule.size
decreasing_by
  · rename_i he
    exact size_lt_of_object _h he
  · exact size_lt_of_item _h

/-! The three again, with what the rule asks for as an ordinary case distinction. -/

theorem conforms_iff (rule v : Json) :
    Conforms rule v ↔
      match demand rule with
      | .text members => ∃ s, v = .str s ∧ TextConforms members s
      | .number => ∃ n, v = .num n
      | .boolean => ∃ b, v = .bool b
      | .object rules =>
        ∃ members, v = .obj members ∧
          ∀ e ∈ rules, ∃ w, Table.get? members e.1 = some w ∧ Conforms e.2 w
      | .list item => ∃ items, v = .arr items ∧ ∀ w ∈ items, Conforms item w
      | .anything => True := by
  rw [Conforms]
  split <;> rename_i h <;> rw [h]

theorem bounded_iff (rule : Json) :
    Bounded rule ↔
      match demand rule with
      | .text members =>
        ∀ n, Gives members "minLength" n ∨ Gives members "maxLength" n →
          0 ≤ n ∧ n < 0x10000000000000000
      | .object rules => ∀ e ∈ rules, Bounded e.2
      | .list item => Bounded item
      | .number | .boolean | .anything => True := by
  rw [Bounded]
  split <;> rename_i h <;> rw [h]

theorem project_eq (rule v : Json) :
    project rule v =
      match demand rule with
      | .object rules =>
        match v with
        | .obj members =>
          .obj (rules.filterMap fun e => (Table.get? members e.1).map fun w => (e.1, project e.2 w))
        | v => v
      | .list item =>
        match v with
        | .arr items => .arr (items.map (project item))
        | v => v
      | .text _ | .number | .boolean | .anything => v := by
  rw [project]
  split <;> rename_i h <;> rw [h]
  rename_i rules
  cases v with
  | obj members =>
    have hattach : rules = rules.attach.map Subtype.val := (List.attach_map_subtype_val rules).symm
    dsimp only
    rw [hattach, List.filterMap_map, ← hattach]
    rfl
  | _ => rfl

theorem bound?_eq_some_iff {members : Table Json} {name : String} {n : Int} :
    Shape.bound? members name = some n ↔ Gives members name n := by
  unfold Shape.bound? Gives
  split
  · rename_i m h
    rw [h]
    simp
  · rename_i b h
    rw [h]
    simp [eq_comm]
  · rename_i hint hbool
    simp only [reduceCtorEq, false_iff, not_or]
    refine ⟨hint n, ?_⟩
    rintro ⟨b, hb, _⟩
    exact hbool b hb

/-! ## Checking values -/

theorem mem_allowed_iff {members : Table Json} {s : String} :
    (Shape.allowed members = [] ∨ s ∈ Shape.allowed members) ↔
      ∀ items, members.get? "enum" = some (.arr items) → items ≠ [] →
        ∃ item ∈ items, item.display = s := by
  unfold Shape.allowed Shape.listed
  split
  · rename_i items h
    rw [h]
    simp only [List.map_eq_nil_iff, List.mem_map, Option.some.injEq, Json.arr.injEq]
    constructor
    · rintro (hnil | hmem) other rfl hne
      · exact absurd hnil hne
      · exact hmem
    · intro hall
      by_cases hnil : items = []
      · exact .inl hnil
      · exact .inr (hall items rfl hnil)
  · rename_i hnone
    simp only [List.map_nil, true_or, true_iff]
    intro items hitems
    exact absurd hitems (hnone items)

theorem unless_ok_iff {refused : Bool} {p : Schema.Problem} {rest : Schema.Checked Json} {out : Json} :
    (if refused then .fail p else rest) = .ok out ↔ refused = false ∧ rest = .ok out := by
  cases refused <;> simp [Schema.Checked.fail]

theorem checkText_ok_iff {members : Table Json} {s : String} {out : Json} :
    Shape.checkText (Shape.bound? members "minLength") (Shape.bound? members "maxLength")
        (Shape.allowed members) s = .ok out ↔
      TextConforms members s ∧ out = .str s := by
  have hleast : ((Shape.bound? members "minLength").any fun n => decide ((s.length : Int) < n)) = false ↔
      ∀ n, Gives members "minLength" n → n ≤ s.length := by
    simp only [← bound?_eq_some_iff]
    cases Shape.bound? members "minLength" <;> simp
  have hmost : ((Shape.bound? members "maxLength").any fun n => decide (n < (s.length : Int))) = false ↔
      ∀ n, Gives members "maxLength" n → (s.length : Int) ≤ n := by
    simp only [← bound?_eq_some_iff]
    cases Shape.bound? members "maxLength" <;> simp
  have hlisted : (!(Shape.allowed members).isEmpty && !(Shape.allowed members).contains s) = false ↔
      ∀ items, members.get? "enum" = some (.arr items) → items ≠ [] →
        ∃ item ∈ items, item.display = s := by
    rw [← mem_allowed_iff, Bool.and_eq_false_iff]
    simp
  rw [Shape.checkText, unless_ok_iff, unless_ok_iff, unless_ok_iff, hmost, hleast, hlisted]
  constructor
  · rintro ⟨hm, hl, ha, hout⟩
    cases hout
    exact ⟨⟨hl, hm, ha⟩, rfl⟩
  · rintro ⟨⟨hl, hm, ha⟩, rfl⟩
    exact ⟨hm, hl, ha, rfl⟩

/-- Checking against the shape of a rule accepts what conforms to the rule, and gives its projection. -/
def Decides (rule : Json) : Prop :=
  ∀ v out, Shape.check (Shape.ofRule rule) v = .ok out ↔ Conforms rule v ∧ out = project rule v

theorem checkFields_ofMembers_iff {rules : Table Json} (h : ∀ e ∈ rules, Decides e.2)
    {members kept : Table Json} :
    Shape.checkFields (Shape.ofMembers rules) members = .ok kept ↔
      (∀ e ∈ rules, ∃ w, Table.get? members e.1 = some w ∧ Conforms e.2 w) ∧
        kept = rules.filterMap fun e =>
          (Table.get? members e.1).map fun w => (e.1, project e.2 w) := by
  induction rules generalizing kept with
  | nil => simp [Shape.ofMembers, Shape.checkFields, eq_comm]
  | cons e rules ih =>
    obtain ⟨k, rule⟩ := e
    have hrule := h (k, rule) (List.mem_cons_self ..)
    have ih := @ih fun e he => h e (List.mem_cons_of_mem _ he)
    rw [Shape.ofMembers, Shape.checkFields, Schema.Checked.ap_ok_iff, List.forall_mem_cons,
      List.filterMap_cons]
    simp only [Schema.Checked.map_ok_iff, Schema.Checked.under_ok_iff]
    cases hget : Table.get? members k with
    | none =>
      simp [Schema.Checked.fail]
    | some w =>
      dsimp only [Option.map_some]
      constructor
      · rintro ⟨g, tail, ⟨v, hv, rfl⟩, htail, rfl⟩
        obtain ⟨hconforms, rfl⟩ := (hrule w v).1 hv
        obtain ⟨hall, rfl⟩ := ih.1 htail
        exact ⟨⟨⟨w, rfl, hconforms⟩, hall⟩, rfl⟩
      · rintro ⟨⟨⟨v, hv, hconforms⟩, hall⟩, rfl⟩
        cases hv
        exact ⟨_, _, ⟨_, (hrule w _).2 ⟨hconforms, rfl⟩, rfl⟩, ih.2 ⟨hall, rfl⟩, rfl⟩

theorem map_check_iff {rule : Json} (h : Decides rule) {items kept : List Json} :
    items.map (Shape.check (Shape.ofRule rule)) = kept.map .ok ↔
      (∀ w ∈ items, Conforms rule w) ∧ kept = items.map (project rule) := by
  induction items generalizing kept with
  | nil => cases kept <;> simp
  | cons w items ih =>
    cases kept with
    | nil => simp
    | cons out kept =>
      simp only [List.map_cons, List.cons.injEq, List.forall_mem_cons, ih, h w out]
      constructor
      · rintro ⟨⟨hw, hout⟩, hall, hkept⟩
        exact ⟨⟨hw, hall⟩, hout, hkept⟩
      · rintro ⟨⟨hw, hall⟩, hout, hkept⟩
        exact ⟨⟨hw, hout⟩, hall, hkept⟩

/-- Checking against the shape of a rule accepts what conforms to the rule, and gives its
projection. -/
theorem check_ofRule_iff (rule : Json) : Decides rule := by
  induction rule using demand_induct with
  | step rule hobject hlist =>
    intro v out
    rw [ofRule_eq, conforms_iff, project_eq]
    cases hdemand : demand rule with
    | text members =>
      dsimp only
      cases v with
      | str s =>
        rw [Shape.check, checkText_ok_iff]
        simp
      | _ => simp [Shape.check, Schema.Checked.fail]
    | number => cases v <;> simp [Shape.check, eq_comm]
    | boolean => cases v <;> simp [Shape.check, Schema.Checked.fail, eq_comm]
    | anything => simp [Shape.check, eq_comm]
    | object rules =>
      dsimp only
      have hrules := hobject rules hdemand
      cases v with
      | obj members =>
        simp only [Shape.check, Schema.Checked.map_ok_iff, checkFields_ofMembers_iff hrules,
          Json.obj.injEq]
        constructor
        · rintro ⟨kept, ⟨hall, rfl⟩, rfl⟩
          exact ⟨⟨members, rfl, hall⟩, rfl⟩
        · rintro ⟨⟨other, rfl, hall⟩, rfl⟩
          exact ⟨_, ⟨hall, rfl⟩, rfl⟩
      | _ => simp [Shape.check, Schema.Checked.fail]
    | list item =>
      dsimp only
      have hitem := hlist item hdemand
      cases v with
      | arr items =>
        simp only [Shape.check, Schema.Checked.map_ok_iff, Schema.Checked.each_ok_iff,
          map_check_iff hitem, Json.arr.injEq]
        constructor
        · rintro ⟨kept, ⟨hall, rfl⟩, rfl⟩
          exact ⟨⟨items, rfl, hall⟩, rfl⟩
        · rintro ⟨⟨other, rfl, hall⟩, rfl⟩
          exact ⟨_, ⟨hall, rfl⟩, rfl⟩
      | _ => simp [Shape.check, Schema.Checked.fail]

/-! ## Limits on lengths -/

theorem isBound_iff {members : Table Json} {name : String} :
    Shape.isBound (Shape.bound? members name) = true ↔
      ∀ n, Gives members name n → 0 ≤ n ∧ n < 0x10000000000000000 := by
  simp only [← bound?_eq_some_iff]
  cases Shape.bound? members name <;> simp [Shape.isBound]

theorem allWellBounded_iff {rules : Table Json} :
    Shape.allWellBounded (Shape.ofMembers rules) = true ↔
      ∀ e ∈ rules, (Shape.ofRule e.2).wellBounded = true := by
  induction rules with
  | nil => simp [Shape.ofMembers, Shape.allWellBounded]
  | cons e rules ih =>
    obtain ⟨k, rule⟩ := e
    rw [Shape.ofMembers, Shape.allWellBounded, Bool.and_eq_true, ih, List.forall_mem_cons]

/-- The limits inside a rule are those inside the shape that it is read as. -/
theorem bounded_iff_wellBounded (rule : Json) :
    Bounded rule ↔ (Shape.ofRule rule).wellBounded = true := by
  induction rule using demand_induct with
  | step rule hobject hlist =>
    rw [bounded_iff, ofRule_eq]
    cases hdemand : demand rule with
    | text members =>
      simp only [Shape.wellBounded, Bool.and_eq_true, isBound_iff]
      constructor
      · intro h
        exact ⟨fun n hn => h n (.inl hn), fun n hn => h n (.inr hn)⟩
      · rintro ⟨hleast, hmost⟩ n (hn | hn)
        · exact hleast n hn
        · exact hmost n hn
    | object rules =>
      simp only [Shape.wellBounded, allWellBounded_iff]
      exact forall₂_congr (hobject rules hdemand)
    | list item => exact hlist item hdemand
    | _ => simp [Shape.wellBounded]

instance (rule : Json) : Decidable (Bounded rule) :=
  decidable_of_iff _ (bounded_iff_wellBounded rule).symm

/-! ## Members that no rule names -/

/-- Two values differ at most in members that no rule names, of objects whose members are described. -/
inductive Agrees : Json → Json → Json → Prop where
  | same (rule v : Json) : Agrees rule v v
  | object {rule : Json} {rules members others : Table Json} (hdemand : demand rule = .object rules)
      (hkeys : ∀ e ∈ rules, e.1 ∈ members.keys ↔ e.1 ∈ others.keys)
      (hvalues : ∀ e ∈ rules, ∀ v w, members.get? e.1 = some v → others.get? e.1 = some w →
        Agrees e.2 v w) :
      Agrees rule (.obj members) (.obj others)
  | list {rule item : Json} {items others : List Json} (hdemand : demand rule = .list item)
      (hlength : items.length = others.length)
      (hitems : ∀ (i : Nat) v w, items[i]? = some v → others[i]? = some w → Agrees item v w) :
      Agrees rule (.arr items) (.arr others)

theorem checkFields_congr {rules members others : Table Json}
    (h : ∀ e ∈ rules,
      (Table.get? members e.1).map (Shape.check (Shape.ofRule e.2)) =
        (Table.get? others e.1).map (Shape.check (Shape.ofRule e.2))) :
    Shape.checkFields (Shape.ofMembers rules) members =
      Shape.checkFields (Shape.ofMembers rules) others := by
  induction rules with
  | nil => rfl
  | cons e rules ih =>
    obtain ⟨k, rule⟩ := e
    have hhead := h (k, rule) (List.mem_cons_self ..)
    have htail := ih fun e he => h e (List.mem_cons_of_mem _ he)
    rw [Shape.ofMembers, Shape.checkFields, Shape.checkFields, htail]
    cases hv : Table.get? members k <;> cases hw : Table.get? others k <;>
      simp_all

theorem each_congr {α β : Type} {read : α → Schema.Checked β} {items others : List α}
    (hlength : items.length = others.length)
    (h : ∀ (i : Nat) v w, items[i]? = some v → others[i]? = some w → read v = read w) (start : Nat) :
    Schema.Checked.each read start items = Schema.Checked.each read start others := by
  induction items generalizing others start with
  | nil =>
    cases others with
    | nil => rfl
    | cons w others => simp at hlength
  | cons v items ih =>
    cases others with
    | nil => simp at hlength
    | cons w others =>
      have hhead := h 0 v w rfl rfl
      have htail := ih (by simpa using hlength) (fun i v w hv hw => h (i + 1) v w hv hw) (start + 1)
      rw [Schema.Checked.each, Schema.Checked.each, hhead, htail]

/-- Members that no rule names make no difference to a check, whether it accepts or refuses. -/
theorem Agrees.check_eq {rule v w : Json} (h : Agrees rule v w) :
    Shape.check (Shape.ofRule rule) v = Shape.check (Shape.ofRule rule) w := by
  induction h with
  | same rule v => rfl
  | @object rule rules members others hdemand hkeys _ ih =>
    have hlookups : ∀ e ∈ rules,
        (Table.get? members e.1).map (Shape.check (Shape.ofRule e.2)) =
          (Table.get? others e.1).map (Shape.check (Shape.ofRule e.2)) := by
      intro e he
      have hkey := hkeys e he
      rw [Table.mem_keys_iff, Table.mem_keys_iff] at hkey
      cases hv : Table.get? members e.1 with
      | none =>
        cases hw : Table.get? others e.1 with
        | none => rfl
        | some w =>
          obtain ⟨v, hsome⟩ := hkey.2 ⟨w, hw⟩
          rw [hv] at hsome
          cases hsome
      | some v =>
        obtain ⟨w, hw⟩ := hkey.1 ⟨v, hv⟩
        rw [hw, Option.map_some, Option.map_some, ih e he v w hv hw]
    rw [ofRule_eq, hdemand]
    simp only [Shape.check, checkFields_congr hlookups]
  | list hdemand hlength _ ih =>
    rw [ofRule_eq, hdemand]
    simp only [Shape.check, each_congr hlength ih]

theorem distinct_rules {rule : Json} {rules : Table Json} (h : rule.Distinct)
    (hdemand : demand rule = .object rules) :
    rules.keys.Nodup ∧ ∀ e ∈ rules, e.2.Distinct := by
  obtain ⟨members, rfl, hshape⟩ := object_of_demand hdemand
  have hrules := h.of_mem (Table.mem_of_get? hshape)
  refine ⟨?_, fun e he => hrules.of_mem he⟩
  rw [Json.Distinct] at hrules
  exact hrules.1

theorem distinct_item {rule item : Json} (h : rule.Distinct) (hdemand : demand rule = .list item) :
    item.Distinct := by
  obtain ⟨members, rfl, _, rfl⟩ := list_of_demand hdemand
  cases hitem : Table.get? members "items" with
  | none => trivial
  | some item => exact h.of_mem (Table.mem_of_get? hitem)

/-- A value and its projection differ at most in members that no rule names. -/
theorem agrees_project {rule : Json} (h : rule.Distinct) (v : Json) : Agrees rule v (project rule v) := by
  induction rule using demand_induct generalizing v with
  | step rule hobject hlist =>
    rw [project_eq]
    cases hdemand : demand rule with
    | object rules =>
      obtain ⟨hkeys, hrules⟩ := distinct_rules h hdemand
      cases v with
      | obj members =>
        refine .object hdemand (fun e he => ?_) fun e he v w hv hw => ?_
        · rw [Table.mem_keys_iff]
          constructor
          · rintro ⟨v, hv⟩
            refine List.mem_map.2 ⟨(e.1, project e.2 v), List.mem_filterMap.2 ⟨e, he, ?_⟩, rfl⟩
            rw [hv]
            rfl
          · intro hkey
            obtain ⟨kept, hkept, hname⟩ := List.mem_map.1 hkey
            obtain ⟨d, _, hd⟩ := List.mem_filterMap.1 hkept
            obtain ⟨v, hv, rfl⟩ := Option.map_eq_some_iff.1 hd
            exact ⟨v, hname ▸ hv⟩
        · obtain ⟨d, hd, hkept⟩ := List.mem_filterMap.1 (Table.mem_of_get? hw)
          obtain ⟨found, hfound, heq⟩ := Option.map_eq_some_iff.1 hkept
          obtain ⟨hname, rfl⟩ := Prod.mk.inj heq
          -- Only one rule has the name.
          have hrule : e.2 = d.2 := by
            have hd := Table.get?_of_mem hkeys hd
            rw [hname, Table.get?_of_mem hkeys he, Option.some.injEq] at hd
            exact hd
          rw [hname, hv, Option.some.injEq] at hfound
          rw [hfound, ← hrule]
          exact hobject rules hdemand e he (hrules e he) found
      | _ => exact .same _ _
    | list item =>
      cases v with
      | arr items =>
        refine .list hdemand (by simp) fun i v w hv hw => ?_
        rw [List.getElem?_map, hv, Option.map_some, Option.some.injEq] at hw
        rw [← hw]
        exact hlist item hdemand (distinct_item h hdemand) v
      | _ => exact .same _ _
    | _ => exact .same _ _

/-- A member that no rule names can be added, wherever the members are described. -/
theorem Agrees.put {rule : Json} {rules members : Table Json} (hdemand : demand rule = .object rules)
    {key : String} (hkey : key ∉ rules.keys) (v : Json) :
    Agrees rule (.obj members) (.obj (Table.put members key v)) := by
  have hget : ∀ e ∈ rules, Table.get? (Table.put members key v) e.1 = Table.get? members e.1 := by
    intro e he
    refine Table.get?_put_of_ne members v fun heq => hkey ?_
    rw [← heq]
    exact List.mem_map_of_mem he
  refine .object hdemand (fun e he => ?_) fun e he v w hv hw => ?_
  · rw [Table.mem_keys_iff, Table.mem_keys_iff, hget e he]
  · rw [hget e he, hv, Option.some.injEq] at hw
    rw [hw]
    exact .same _ _

end Rule

/-! ## Outputs -/

/-- The shape of an output as a rule. -/
def outputRule (shape : Table Json) : Json := .obj [("type", .str "object"), ("shape", .obj shape)]

theorem demand_outputRule (shape : Table Json) : Rule.demand (outputRule shape) = .object shape := rfl

theorem typed_outputRule_iff {shape : Table Json} :
    Rule.Typed (outputRule shape) ↔ Shape.fieldsFault? outputName shape = none := by
  have htype : ∀ v, (outputRule shape).get? "type" = some v → v.Writable := by
    intro v hv
    cases hv
    exact Json.writable_str _
  rw [Rule.typed_iff, Rule.fieldsFault?_eq_none_iff, demand_outputRule]
  exact and_iff_right htype

theorem validateOutput_eq {shape : Table Json} (htyped : Rule.Typed (outputRule shape))
    (hbounded : Rule.Bounded (outputRule shape)) (payload : Json) :
    validateOutput shape payload =
      match Shape.check (Shape.ofRule (outputRule shape)) payload with
      | .ok v => .ok v
      | .issues found => .error (.mismatch found) := by
  have hrule : Shape.ofRule (outputRule shape) = .object (Shape.ofMembers shape) := by
    rw [Rule.ofRule_eq, demand_outputRule]
  rw [Rule.bounded_iff_wellBounded, hrule, Shape.wellBounded] at hbounded
  unfold validateOutput
  rw [hrule, typed_outputRule_iff.1 htyped]
  exact if_pos hbounded

/-- A shape without a type fails whatever the value is. -/
theorem validateOutput_value_iff {shape : Table Json} {payload : Json} :
    (∃ e, validateOutput shape payload = .error (.value e)) ↔ ¬ Rule.Typed (outputRule shape) := by
  constructor
  · rintro ⟨e, h⟩ htyped
    unfold validateOutput at h
    rw [typed_outputRule_iff.1 htyped] at h
    dsimp only at h
    split at h
    · split at h <;> cases h
    · cases h
  · intro htyped
    rw [typed_outputRule_iff] at htyped
    obtain ⟨e, he⟩ := Option.ne_none_iff_exists'.1 htyped
    refine ⟨e, ?_⟩
    unfold validateOutput
    rw [he]

/-- The limits of a shape that has a type are kept in every check, or in none. -/
theorem validateOutput_badBound_iff {shape : Table Json} {payload : Json} :
    validateOutput shape payload = .error .badBound ↔
      Rule.Typed (outputRule shape) ∧ ¬ Rule.Bounded (outputRule shape) := by
  constructor
  · intro h
    have htyped : Rule.Typed (outputRule shape) := by
      refine Decidable.by_contra fun hnot => ?_
      obtain ⟨e, he⟩ := validateOutput_value_iff.2 hnot
      rw [h] at he
      cases he
    refine ⟨htyped, fun hbounded => ?_⟩
    rw [validateOutput_eq htyped hbounded] at h
    split at h <;> cases h
  · rintro ⟨htyped, hbounded⟩
    rw [Rule.bounded_iff_wellBounded, Rule.ofRule_eq, demand_outputRule] at hbounded
    unfold validateOutput
    rw [typed_outputRule_iff.1 htyped]
    exact if_neg hbounded

/-- A shape that nothing can be checked against fails with a fault of its own. -/
theorem validateOutput_of_not_ready {shape : Table Json}
    (h : ¬ (Rule.Typed (outputRule shape) ∧ Rule.Bounded (outputRule shape))) (payload : Json) :
    (∃ e, validateOutput shape payload = .error (.value e)) ∨ validateOutput shape payload = .error .badBound := by
  by_cases htyped : Rule.Typed (outputRule shape)
  · exact .inr (validateOutput_badBound_iff.2 ⟨htyped, fun hbounded => h ⟨htyped, hbounded⟩⟩)
  · exact .inl (validateOutput_value_iff.2 htyped)

theorem validateOutput_ok_iff {shape : Table Json} {payload out : Json} :
    validateOutput shape payload = .ok out ↔
      (Rule.Typed (outputRule shape) ∧ Rule.Bounded (outputRule shape)) ∧
        Shape.check (Shape.ofRule (outputRule shape)) payload = .ok out := by
  by_cases hready : Rule.Typed (outputRule shape) ∧ Rule.Bounded (outputRule shape)
  · rw [validateOutput_eq hready.1 hready.2, and_iff_right hready]
    split <;> simp_all
  · refine iff_of_false (fun h => ?_) fun h => hready h.1
    rcases validateOutput_of_not_ready hready payload with ⟨e, he⟩ | hbad
    · rw [he] at h
      cases h
    · rw [hbad] at h
      cases h

/-- Members that no rule names make no difference, whether an output is accepted or refused. -/
theorem validateOutput_congr {shape : Table Json} {payload other : Json}
    (h : Rule.Agrees (outputRule shape) payload other) :
    validateOutput shape other = validateOutput shape payload := by
  have hcheck := h.check_eq
  rw [Rule.ofRule_eq, demand_outputRule] at hcheck
  simp only [validateOutput, hcheck]

/-- **An output is validated again unchanged**, as the check sees only what the projection keeps. -/
theorem validateOutput_again {shape : Table Json} (hdistinct : (Json.obj shape).Distinct)
    {payload output : Json} (h : validateOutput shape payload = .ok output) :
    validateOutput shape output = .ok output := by
  have hnames : ["type", "shape"].Nodup := by decide
  have hrule : (outputRule shape).Distinct := ⟨hnames, trivial, hdistinct, trivial⟩
  have hsame := validateOutput_congr (Rule.agrees_project hrule payload)
  have hprojected := ((Rule.check_ofRule_iff _ payload output).1 (validateOutput_ok_iff.1 h).2).2
  rw [← hprojected, h] at hsame
  exact hsame

/-- **What validating an output accepts and returns**, for every shape and every value.  If the shape has a type, and
its limits on lengths can be kept, it accepts the values that conform to the shape and returns their projection;
otherwise it fails for every value.  Members that no rule names change nothing, wherever the members are described,
and what was returned is returned again. -/
theorem validateOutput_exact {shape : Table Json} (hdistinct : (Json.obj shape).Distinct) (payload : Json) :
    (∀ out, validateOutput shape payload = .ok out ↔
        (Rule.Typed (outputRule shape) ∧ Rule.Bounded (outputRule shape)) ∧
          Rule.Conforms (outputRule shape) payload ∧ out = Rule.project (outputRule shape) payload) ∧
      ((∃ e, validateOutput shape payload = .error (.value e)) ↔ ¬ Rule.Typed (outputRule shape)) ∧
      (validateOutput shape payload = .error .badBound ↔
        Rule.Typed (outputRule shape) ∧ ¬ Rule.Bounded (outputRule shape)) ∧
      (∀ other, Rule.Agrees (outputRule shape) payload other →
        validateOutput shape other = validateOutput shape payload) ∧
      (∀ out, validateOutput shape payload = .ok out → validateOutput shape out = .ok out) := by
  refine ⟨fun out => ?_, validateOutput_value_iff, validateOutput_badBound_iff,
    fun other h => validateOutput_congr h, fun out h => validateOutput_again hdistinct h⟩
  rw [validateOutput_ok_iff]
  exact and_congr_right fun _ => Rule.check_ofRule_iff (outputRule shape) payload out

/-- A reply and its labels: a text that is not empty, and a list of named objects. -/
def replyShape : Table Json :=
  [("reply", .obj [("minLength", .ofInt 1)]),
    ("labels", .obj [("type", .str "array"),
      ("items", .obj [("type", .str "object"), ("shape", .obj [("name", .obj [])])])])]

theorem replyShape_distinct : (Json.obj replyShape).Distinct := by
  simp [replyShape, Json.Distinct, Json.DistinctMembers, Table.keys, Json.ofInt]

theorem replyShape_ready : Rule.Typed (outputRule replyShape) ∧ Rule.Bounded (outputRule replyShape) := by
  decide +kernel

/-- A label loses a member that its rule does not name, one more member of the reply changes nothing,
and the reply that is left is left as it is. -/
theorem validateOutput_exact_reply :
    (Json.obj replyShape).Distinct ∧ Rule.Typed (outputRule replyShape) ∧ Rule.Bounded (outputRule replyShape) ∧
      validateOutput replyShape
          (.obj [("labels", .arr [.obj [("name", .str "late"), ("score", .ofInt 3)]]),
            ("reply", .str "Sorry.")]) =
        .ok (.obj [("reply", .str "Sorry."), ("labels", .arr [.obj [("name", .str "late")]])]) ∧
      validateOutput replyShape
          (.obj [("labels", .arr [.obj [("name", .str "late"), ("score", .ofInt 3)]]),
            ("reply", .str "Sorry."), ("note", .null)]) =
        .ok (.obj [("reply", .str "Sorry."), ("labels", .arr [.obj [("name", .str "late")]])]) ∧
      validateOutput replyShape
          (.obj [("reply", .str "Sorry."), ("labels", .arr [.obj [("name", .str "late")]])]) =
        .ok (.obj [("reply", .str "Sorry."), ("labels", .arr [.obj [("name", .str "late")]])]) := by
  have hreply : validateOutput replyShape
      (.obj [("labels", .arr [.obj [("name", .str "late"), ("score", .ofInt 3)]]),
        ("reply", .str "Sorry.")]) =
      .ok (.obj [("reply", .str "Sorry."), ("labels", .arr [.obj [("name", .str "late")]])]) := by
    rfl
  obtain ⟨_, _, _, hagrees, hagain⟩ := validateOutput_exact replyShape_distinct
    (.obj [("labels", .arr [.obj [("name", .str "late"), ("score", .ofInt 3)]]),
      ("reply", .str "Sorry.")])
  have hnote := hagrees _ (.put (demand_outputRule replyShape) (by decide : "note" ∉ replyShape.keys) .null)
  rw [hreply] at hnote
  exact ⟨replyShape_distinct, replyShape_ready.1, replyShape_ready.2, hreply, hnote, hagain _ hreply⟩

/-- A field with a null character in its name, and an object under it. -/
def nullShape : Table Json := [("a\x00", .obj [("type", .str "object"), ("shape", .obj [])])]

/-- A value that conforms to a shape without bounds is not accepted, as the shape has no type. -/
theorem validateOutput_null_name :
    (Json.obj nullShape).Distinct ∧ Rule.Bounded (outputRule nullShape) ∧
      Rule.Conforms (outputRule nullShape) (.obj [("a\x00", .obj [])]) ∧
      validateOutput nullShape (.obj [("a\x00", .obj [])]) = .error (.value .nullName) := by
  refine ⟨?_, by decide +kernel, ?_, rfl⟩
  · simp [nullShape, Json.Distinct, Json.DistinctMembers, Table.keys]
  · refine (Rule.conforms_iff _ _).2 ⟨_, rfl, fun e he => ?_⟩
    cases List.mem_singleton.1 he
    exact ⟨_, rfl, (Rule.conforms_iff _ _).2 ⟨_, rfl, List.forall_mem_nil _⟩⟩

end FormFlow
