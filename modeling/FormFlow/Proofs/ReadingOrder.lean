import FormFlow.App.Reading
import FormFlow.Proofs.MemberOrder

/-!
# Reading up to the order of members

A reading looks members up by their names, so that it does not depend on the order in which they stand.  Two
values that differ in that order alone are both refused, perhaps with their issues in another order, or what is
read from them differs in the order of mappings alone.  `Respects` says so of a reading, and has a rule for
each way in which readings are put together.

## Principal results

* `Respects.required`, `Respects.list`, `Respects.mapping`, `Respects.tagged` — the rules;
* `App.Matches` — applications that differ only in the order of their mappings;
* `App.ofJson_respects` — what is read from two values that differ in the order of members.
-/

namespace FormFlow

open Json (Alike)

namespace Schema

variable {α β γ δ : Type}

/-! ## Two readings -/

/-- Both readings have issues, or their results are related. -/
inductive Checked.Agree (R : α → β → Prop) : Checked α → Checked β → Prop
  | ok {a : α} {b : β} (related : R a b) : Agree R (.ok a) (.ok b)
  | issues (found more : List Issue) : Agree R (.issues found) (.issues more)

namespace Checked.Agree

variable {R : α → β → Prop} {S : γ → δ → Prop} {x : Checked α} {y : Checked β}

theorem refl (x : Checked α) : Agree (· = ·) x x := by
  cases x with
  | ok a => exact .ok rfl
  | issues found => exact .issues found found

theorem imp {T : α → β → Prop} (h : Agree R x y) (hR : ∀ a b, R a b → T a b) : Agree T x y := by
  cases h with
  | ok related => exact .ok (hR _ _ related)
  | issues found more => exact .issues found more

theorem under (h : Agree R x y) (step other : PathStep) : Agree R (x.under step) (y.under other) := by
  cases h with
  | ok related => exact .ok related
  | issues found more => exact .issues _ _

theorem map {f : α → γ} {g : β → δ} (hR : ∀ a b, R a b → S (f a) (g b)) (h : Agree R x y) :
    Agree S (x.map f) (y.map g) := by
  cases h with
  | ok related => exact .ok (hR _ _ related)
  | issues found more => exact .issues found more

theorem fmap {f : α → γ} {g : β → δ} (hR : ∀ a b, R a b → S (f a) (g b)) (h : Agree R x y) :
    Agree S (f <$> x) (g <$> y) :=
  h.map hR

theorem ap {f : Checked (α → γ)} {g : Checked (β → δ)}
    (hf : Agree (fun f g => ∀ a b, R a b → S (f a) (g b)) f g) (h : Agree R x y) :
    Agree S (f.ap x) (g.ap y) := by
  cases hf with
  | ok hfg =>
    cases h with
    | ok hab => exact .ok (hfg _ _ hab)
    | issues found more => exact .issues _ _
  | issues found more => cases h <;> exact .issues _ _

theorem andThen {f : α → Checked γ} {g : β → Checked δ} (h : Agree R x y)
    (hfg : ∀ a b, R a b → Agree S (f a) (g b)) : Agree S (x.andThen f) (y.andThen g) := by
  cases h with
  | ok related => exact hfg _ _ related
  | issues found more => exact .issues found more

/-- Both readings have a result, or none has. -/
theorem exists_ok_iff (h : Agree R x y) : (∃ a, x = .ok a) ↔ ∃ b, y = .ok b := by
  cases h <;> simp

theorem seq {f : Checked (α → γ)} {g : Checked (β → δ)}
    (hf : Agree (fun f g => ∀ a b, R a b → S (f a) (g b)) f g) (h : Agree R x y) :
    Agree S (f <*> x) (g <*> y) :=
  hf.ap h

end Checked.Agree

theorem Checked.get?_eachMember {read : α → Checked β} {members : Table α} {t : Table β}
    (h : eachMember read members = .ok t) (key : String) :
    (members.get? key).map read = (t.get? key).map .ok := by
  have hget := congrArg (Table.get? · key) (eachMember_ok_iff.1 h)
  simpa [Table.get?_map] using hget

/-- A mapping is read if each of its values is. -/
theorem Checked.forall_mem_ok_iff {read : α → Checked β} {members : List (String × α)} :
    (∀ m ∈ members, ∃ b, read m.2 = .ok b) ↔ ∃ t, eachMember read members = .ok t := by
  induction members with
  | nil => simp [eachMember]
  | cons m members ih =>
    rw [List.forall_mem_cons, ih]
    simp only [eachMember, ap_ok_iff, map_ok_iff, under_ok_iff]
    constructor
    · rintro ⟨⟨b, hb⟩, t, ht⟩
      exact ⟨_, _, _, ⟨b, hb, rfl⟩, ht, rfl⟩
    · rintro ⟨_, _, t, ⟨b, hb, rfl⟩, ht, rfl⟩
      exact ⟨⟨b, hb⟩, t, ht⟩

/-! ## Rules -/

/-- From values that differ in the order of members related results are read, or none. -/
def Respects (read : Json → Checked α) (R : α → α → Prop) : Prop :=
  ∀ v w : Json, v.Alike w → Checked.Agree R (read v) (read w)

/-- The same of a reading of members. -/
def RespectsMembers (read : Table Json → Checked α) (R : α → α → Prop) : Prop :=
  ∀ members others : Table Json, (Json.obj members).Alike (.obj others) →
    Checked.Agree R (read members) (read others)

theorem field?_alike {members others : Table Json} (h : (Json.obj members).Alike (.obj others))
    (name second : String) :
    field? members name second = none ∧ field? others name second = none ∨
      ∃ v w, field? members name second = some v ∧ field? others name second = some w ∧ v.Alike w := by
  unfold field?
  rcases h.of_obj.at_key name with ⟨hv, hw⟩ | ⟨v, w, hv, hw, halike⟩
  · rw [hv, hw]
    exact h.of_obj.at_key second
  · rw [hv, hw]
    exact .inr ⟨v, w, rfl, rfl, halike⟩

namespace Respects

variable {read : Json → Checked α} {R : α → α → Prop}

/-- A reading that refuses arrays and objects. -/
theorem scalar (harr : ∀ items, ∃ found, read (.arr items) = .issues found)
    (hobj : ∀ members, ∃ found, read (.obj members) = .issues found) : Respects read (· = ·) := by
  intro v w h
  cases h.permuted with
  | null | bool b | num n | str s => exact .refl _
  | arr length each =>
    obtain ⟨found, hfound⟩ := harr _
    obtain ⟨more, hmore⟩ := harr _
    rw [hfound, hmore]
    exact .issues found more
  | obj keys values =>
    obtain ⟨found, hfound⟩ := hobj _
    obtain ⟨more, hmore⟩ := hobj _
    rw [hfound, hmore]
    exact .issues found more

theorem required (h : Respects read R) {members others : Table Json}
    (hmembers : (Json.obj members).Alike (.obj others)) (name second : String) :
    Checked.Agree R (Schema.required members name second read) (Schema.required others name second read) := by
  unfold Schema.required
  rcases field?_alike hmembers name second with ⟨hv, hw⟩ | ⟨v, w, hv, hw, halike⟩ <;> rw [hv, hw]
  · exact .issues _ _
  · exact (h v w halike).under _ _

theorem defaulted (h : Respects read R) {members others : Table Json}
    (hmembers : (Json.obj members).Alike (.obj others)) (name second : String) {default : α}
    (hdefault : R default default) :
    Checked.Agree R (Schema.defaulted members name second default read)
      (Schema.defaulted others name second default read) := by
  unfold Schema.defaulted
  rcases field?_alike hmembers name second with ⟨hv, hw⟩ | ⟨v, w, hv, hw, halike⟩ <;> rw [hv, hw]
  · exact .ok hdefault
  · exact (h v w halike).under _ _

theorem optional (h : Respects read (· = ·)) {members others : Table Json}
    (hmembers : (Json.obj members).Alike (.obj others)) (name second : String) :
    Checked.Agree (· = ·) (Schema.optional members name second read)
      (Schema.optional others name second read) := by
  unfold Schema.optional
  rcases field?_alike hmembers name second with ⟨hv, hw⟩ | ⟨v, w, hv, hw, halike⟩ <;> rw [hv, hw]
  · exact .ok rfl
  · have hinner := ((h v w halike).map fun a b hab => congrArg some hab).under (.name name) (.name name)
    cases halike.permuted with
    | null => exact .ok rfl
    | _ => exact hinner

theorem model {read : Table Json → Checked α} (h : RespectsMembers read R) (typeName : String) :
    Respects (readModel typeName read) R := by
  intro v w halike
  cases halike.permuted with
  | obj keys values => exact h _ _ halike
  | _ => exact .issues _ _

theorem list (h : Respects read R) : Respects (readList read) (List.Forall₂ R) := by
  intro v w halike
  cases halike.permuted with
  | arr length each =>
    have hitems := halike.of_arr
    unfold readList
    dsimp only
    -- The position of an item is in the issues only.
    generalize 0 = start
    clear length each halike
    induction hitems generalizing start with
    | nil => exact .ok .nil
    | cons hab _ ih =>
      exact (((h _ _ hab).under _ _).map fun a b hab as bs hrest => List.Forall₂.cons hab hrest).ap (ih _)
  | _ => exact .issues _ _

theorem nonEmptyList (h : Respects read R) : Respects (readNonEmptyList read) (List.Forall₂ R) := by
  refine fun v w halike => (h.list v w halike).andThen fun items others hitems => ?_
  cases hitems with
  | nil => exact .issues _ _
  | cons hab hrest => exact .ok (.cons hab hrest)

/-- Items that are read alike are read as the same list. -/
theorem sameList (h : Respects read (· = ·)) : Respects (readList read) (· = ·) :=
  fun v w halike => (h.list v w halike).imp fun _ _ hsame => List.forall₂_eq_eq_eq ▸ hsame

theorem sameNonEmptyList (h : Respects read (· = ·)) : Respects (readNonEmptyList read) (· = ·) :=
  fun v w halike => (h.nonEmptyList v w halike).imp fun _ _ hsame => List.forall₂_eq_eq_eq ▸ hsame

theorem mapping (h : Respects read R) : Respects (readMapping read) (Table.Matches R) := by
  intro v w halike
  cases halike.permuted with
  | obj keys values =>
    rename_i members others
    have hmembers := halike.of_obj
    -- The mappings are read in different orders, so that they are compared key by key and not step by step.
    have hboth : (∃ t, Checked.eachMember read members = .ok t) ↔
        ∃ u, Checked.eachMember read others = .ok u := by
      rw [← Checked.forall_mem_ok_iff, ← Checked.forall_mem_ok_iff]
      exact hmembers.forall_mem_iff (P := fun _ v => ∃ a, read v = .ok a) (Q := fun _ v => ∃ a, read v = .ok a)
        fun _ v w hab => (h v w hab).exists_ok_iff
    unfold readMapping
    dsimp only
    cases ht : Checked.eachMember read members with
    | issues found =>
      cases hu : Checked.eachMember read others with
      | issues more => exact .issues found more
      | ok u => simp [ht, hu] at hboth
    | ok t =>
      cases hu : Checked.eachMember read others with
      | issues more => simp [ht, hu] at hboth
      | ok u =>
        refine .ok ⟨?_, ?_, fun key => ?_⟩
        · rw [Checked.keys_eachMember ht]
          exact hmembers.left
        · rw [Checked.keys_eachMember hu]
          exact hmembers.right
        · have hleft := Checked.get?_eachMember ht key
          have hright := Checked.get?_eachMember hu key
          rcases hmembers.at_key key with ⟨hv, hw⟩ | ⟨v, w, hv, hw, hvw⟩ <;> rw [hv] at hleft <;>
            rw [hw] at hright
          · rw [Option.map_eq_none_iff.1 hleft.symm, Option.map_eq_none_iff.1 hright.symm]
            exact .none
          · obtain ⟨a, ha, hread⟩ := Option.map_eq_some_iff.1 hleft.symm
            obtain ⟨b, hb, hother⟩ := Option.map_eq_some_iff.1 hright.symm
            have hagree := h v w hvw
            rw [← hread, ← hother] at hagree
            cases hagree with
            | ok related =>
              rw [ha, hb]
              exact .some related
  | _ => exact .issues _ _

theorem freeMapping : Respects readFreeMapping fun t u => (Json.obj t).Alike (.obj u) := by
  intro v w halike
  cases halike.permuted with
  | obj keys values => exact .ok halike
  | _ => exact .issues _ _

theorem tagged {variants : List (String × (Table Json → Checked α))}
    (h : ∀ variant ∈ variants, RespectsMembers variant.2 R) (discriminator : String) :
    Respects (readTagged discriminator variants) R := by
  intro v w halike
  cases halike.permuted with
  | obj keys values =>
    unfold readTagged
    dsimp only
    rcases halike.of_obj.at_key discriminator with ⟨hv, hw⟩ | ⟨tag, other, hv, hw, htag⟩ <;> rw [hv, hw]
    · exact .issues _ _
    · cases htag.permuted with
      | str name =>
        dsimp only
        split
        · rename_i read hread
          exact (h _ (Table.mem_of_get? hread) _ _ halike).under _ _
        · exact .issues _ _
      | _ => exact .issues _ _
  | _ => exact .issues _ _

/-! ## Scalars -/

theorem string : Respects readString (· = ·) := scalar (fun _ => ⟨_, rfl⟩) fun _ => ⟨_, rfl⟩

theorem text : Respects readText (· = ·) := scalar (fun _ => ⟨_, rfl⟩) fun _ => ⟨_, rfl⟩

theorem count : Respects readCount (· = ·) := scalar (fun _ => ⟨_, rfl⟩) fun _ => ⟨_, rfl⟩

theorem positive : Respects readPositive (· = ·) := scalar (fun _ => ⟨_, rfl⟩) fun _ => ⟨_, rfl⟩

theorem boolean : Respects readBoolean (· = ·) := scalar (fun _ => ⟨_, rfl⟩) fun _ => ⟨_, rfl⟩

theorem temperature : Respects readTemperature (· = ·) := scalar (fun _ => ⟨_, rfl⟩) fun _ => ⟨_, rfl⟩

theorem word (words : List (String × α)) : Respects (readWord words) (· = ·) :=
  scalar (fun _ => ⟨_, rfl⟩) fun _ => ⟨_, rfl⟩

end Respects

end Schema

open Schema

/-! ## Applications that differ in the order of mappings -/

/-- Two state fields differ at most in the order of a shape's members. -/
inductive StateField.Matches : StateField → StateField → Prop
  | primitive (field : PrimitiveField) : Matches (.primitive field) (.primitive field)
  | array {source : Option String} {shape other : Table Json} (alike : (Json.obj shape).Alike (.obj other)) :
      Matches (.array ⟨source, shape⟩) (.array ⟨source, other⟩)

/-- Two components differ at most in the order of a button's interactions. -/
inductive Component.Matches : Component → Component → Prop
  | textArea (area : TextArea) : Matches (.textArea area) (.textArea area)
  | button {id label : String} {events others : Table String} (same : Table.Matches (· = ·) events others) :
      Matches (.button ⟨id, label, events⟩) (.button ⟨id, label, others⟩)
  | dataTable (table : DataTable) : Matches (.dataTable table) (.dataTable table)

/-- Two prompts differ at most in the order of the shape's members. -/
structure PromptSpec.Matches (spec other : PromptSpec) : Prop where
  template : spec.template = other.template
  declared : spec.declared = other.declared
  policy : spec.policy = other.policy
  shape : (Json.obj spec.shape).Alike (.obj other.shape)

/-- Two nodes differ at most in the order of a shape's members or of a transform's targets. -/
inductive Node.Matches : Node → Node → Prop
  | validate (id : String) (keys : List String) : Matches (.validate id keys) (.validate id keys)
  | prompt (id : String) {spec other : PromptSpec} (matched : spec.Matches other) :
      Matches (.prompt id spec) (.prompt id other)
  | transform (id : String) {targets others : Table String} (same : Table.Matches (· = ·) targets others) :
      Matches (.transform id targets) (.transform id others)

/-- Two events differ at most in the order of the mappings of nodes. -/
structure EventDefinition.Matches (e other : EventDefinition) : Prop where
  id : e.id = other.id
  trigger : e.trigger = other.trigger
  nodes : List.Forall₂ Node.Matches e.graph.nodes other.graph.nodes
  edges : e.graph.edges = other.graph.edges

/-- Two applications differ at most in the order of their mappings. -/
structure App.Matches (app other : App) : Prop where
  appId : app.appId = other.appId
  version : app.version = other.version
  components : List.Forall₂ Component.Matches app.components other.components
  stateModel : Table.Matches StateField.Matches app.stateModel other.stateModel
  events : List.Forall₂ EventDefinition.Matches app.events other.events

/-! ## Reading applications -/

theorem readShape_respects (typeName : String) :
    Respects (readShape typeName) fun shape other => (Json.obj shape).Alike (.obj other) := by
  refine .model (fun members others hmembers => ?_) typeName
  refine ((Respects.word _).required hmembers _ _ |>.fmap ?_).seq (Respects.freeMapping.required hmembers _ _)
  rintro _ _ rfl shape other hshape
  exact hshape

theorem readStateField_respects : Respects readStateField StateField.Matches := by
  have hprimitive (kind : PrimitiveKind) : RespectsMembers (readPrimitive kind) StateField.Matches := by
    intro members others hmembers
    refine ((((Respects.string.optional hmembers _ _).fmap ?_).seq
      (Respects.string.sameList.optional hmembers _ _)).seq
        (Respects.count.optional hmembers _ _)).seq (Respects.count.optional hmembers _ _)
    rintro source _ rfl allowed _ rfl least _ rfl most _ rfl
    exact .primitive _
  refine .tagged (fun variant hvariant => ?_) "type"
  simp only [List.mem_cons, List.not_mem_nil, or_false] at hvariant
  rcases hvariant with rfl | rfl | rfl | rfl
  · exact hprimitive .string
  · exact hprimitive .number
  · exact hprimitive .boolean
  · intro members others hmembers
    refine ((Respects.string.optional hmembers _ _).fmap ?_).seq
      ((readShape_respects _).required hmembers _ _)
    rintro source _ rfl shape other hshape
    exact .array hshape

theorem readTextAreaProps_respects : Respects readTextAreaProps (· = ·) := by
  refine .model (fun members others hmembers => ?_) "TextAreaProps"
  refine ((Respects.boolean.optional hmembers _ _).fmap ?_).seq (Respects.positive.optional hmembers _ _)
  rintro needed _ rfl most _ rfl
  rfl

theorem readComponent_respects : Respects readComponent Component.Matches := by
  refine .tagged (fun variant hvariant => ?_) "type"
  simp only [List.mem_cons, List.not_mem_nil, or_false] at hvariant
  rcases hvariant with rfl | rfl | rfl <;> intro members others hmembers
  · refine ((((Respects.text.required hmembers _ _).fmap ?_).seq (Respects.text.required hmembers _ _)).seq
      (Respects.text.required hmembers _ _)).seq (readTextAreaProps_respects.defaulted hmembers _ _ rfl)
    rintro id _ rfl label _ rfl key _ rfl props _ rfl
    exact .textArea _
  · refine (((Respects.text.required hmembers _ _).fmap ?_).seq (Respects.text.required hmembers _ _)).seq
      (Respects.string.mapping.defaulted hmembers _ _ .nil)
    rintro id _ rfl label _ rfl events others hsame
    exact .button hsame
  · refine (((Respects.text.required hmembers _ _).fmap ?_).seq (Respects.text.required hmembers _ _)).seq
      (Respects.text.required hmembers _ _)
    rintro id _ rfl label _ rfl key _ rfl
    exact .dataTable _

theorem readPolicy_respects : Respects readPolicy (· = ·) := by
  refine .model (fun members others hmembers => ?_) "ModelPolicy"
  refine ((((Respects.word _).required hmembers _ _).fmap ?_).seq (Respects.text.required hmembers _ _)).seq
    (Respects.temperature.optional hmembers _ _)
  rintro provider _ rfl model _ rfl temperature _ rfl
  rfl

theorem readPromptSpec_respects : Respects readPromptSpec PromptSpec.Matches := by
  refine .model (fun members others hmembers => ?_) "PromptSpec"
  refine ((((Respects.text.required hmembers _ _).fmap ?_).seq
    (Respects.text.sameList.defaulted hmembers _ _ rfl)).seq
      (readPolicy_respects.required hmembers _ _)).seq ((readShape_respects _).required hmembers _ _)
  intro template _ htemplate declared _ hdeclared policy _ hpolicy shape _ hshape
  exact ⟨htemplate, hdeclared, hpolicy, hshape⟩

theorem readNode_respects : Respects readNode Node.Matches := by
  have hinput : Respects readValidateInput (· = ·) :=
    .model (fun members others hmembers => Respects.text.sameNonEmptyList.required hmembers _ _) _
  refine .tagged (fun variant hvariant => ?_) "kind"
  simp only [List.mem_cons, List.not_mem_nil, or_false] at hvariant
  rcases hvariant with rfl | rfl | rfl <;> intro members others hmembers
  · refine ((Respects.text.required hmembers _ _).fmap ?_).seq (hinput.required hmembers _ _)
    rintro id _ rfl keys _ rfl
    exact .validate id keys
  · refine ((Respects.text.required hmembers _ _).fmap ?_).seq (readPromptSpec_respects.required hmembers _ _)
    rintro id _ rfl spec other hspec
    exact .prompt id hspec
  · refine ((Respects.text.required hmembers _ _).fmap ?_).seq (Respects.string.mapping.required hmembers _ _)
    rintro id _ rfl targets others htargets
    exact .transform id htargets

theorem readEvent_respects : Respects readEvent EventDefinition.Matches := by
  have hedge : Respects readEdge (· = ·) := by
    refine .model (fun members others hmembers => ?_) "ActionEdge"
    refine ((Respects.text.required hmembers _ _).fmap ?_).seq (Respects.text.required hmembers _ _)
    rintro source _ rfl target _ rfl
    rfl
  have hgraph : Respects readGraph fun g h =>
      List.Forall₂ Node.Matches g.nodes h.nodes ∧ g.edges = h.edges := by
    refine .model (fun members others hmembers => ?_) "ActionGraph"
    refine ((readNode_respects.nonEmptyList.required hmembers _ _).fmap ?_).seq
      (hedge.sameList.required hmembers _ _)
    intro nodes others hnodes edges more hedges
    exact ⟨hnodes, hedges⟩
  have htrigger : Respects readTrigger (· = ·) := by
    refine .model (fun members others hmembers => ?_) "Trigger"
    refine ((Respects.text.required hmembers _ _).fmap ?_).seq ((Respects.word _).required hmembers _ _)
    rintro id _ rfl kind _ rfl
    rfl
  refine .model (fun members others hmembers => ?_) "EventDefinition"
  refine (((Respects.text.required hmembers _ _).fmap ?_).seq (htrigger.required hmembers _ _)).seq
    (hgraph.required hmembers _ _)
  intro id _ hid trigger _ htrigger g h hgraph
  exact ⟨hid, htrigger, hgraph.1, hgraph.2⟩

/-- **Reading does not depend on the order of members.**  Two values that differ in that order alone are both
refused, or the applications that are read from them differ in the order of their mappings alone. -/
theorem App.ofJson_respects : Respects App.ofJson App.Matches := by
  have hlayout : Respects readLayout (List.Forall₂ Component.Matches) :=
    .model (fun members others hmembers => readComponent_respects.nonEmptyList.required hmembers _ _) _
  refine .model (fun members others hmembers => ?_) "AppDefinition"
  refine (((((Respects.text.required hmembers _ _).fmap ?_).seq (Respects.text.required hmembers _ _)).seq
    (hlayout.required hmembers _ _)).seq (readStateField_respects.mapping.required hmembers _ _)).seq
      (readEvent_respects.list.required hmembers _ _)
  intro appId _ hid version _ hversion components _ hcomponents stateModel _ hmodel events _ hevents
  exact ⟨hid, hversion, hcomponents, hmodel, hevents⟩

end FormFlow
