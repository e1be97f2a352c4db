import FormFlow.Proofs.PromptKeys

/-!
# Well-formed applications

`App.WellFormed` says what an application must be like, with no word about how it is checked: which ids
and keys are distinct, which names lead somewhere, and that no graph has a cycle.  The checks of
validation report, for each element of a list, a clash with the elements before it; an owner with the
same id is let pass, and its repeated id is a finding of its own.  Together they find no error exactly
in a well-formed application.

## Principal results

* `nodup_map_iff_earlier` — distinct names, read at each element and the elements before it;
* `harmless_owner` — a claim to something that an earlier component owns;
* `harmless_checkComponents`, `harmless_checkEvents` — what the two groups of checks ask for;
* `accepted_iff_wellFormed` — the checks as a whole;
* `validate_ok_exact` — the applications that validation accepts.
-/

namespace FormFlow

/-! ## What is asked of an application -/

/-- The state key that a component shows or edits. -/
def Component.boundKey? : Component → Option String
  | .textArea area => some area.stateKey
  | .dataTable table => some table.dataKey
  | .button _ => none

/-- The names in a prompt stand for state keys, and those in its template are declared. -/
structure App.Grounds (app : App) (spec : PromptSpec) : Prop where
  tokens : ∀ t ∈ Template.keys spec.template, app.keyFor t ∈ app.stateModel.keys
  declared : ∀ v ∈ spec.declared, app.keyFor v ∈ app.stateModel.keys
  tokensDeclared : ∀ t ∈ Template.keys spec.template, app.keyFor t ∈ spec.declared.map app.keyFor

/-- A transform writes to state keys, and its references name nodes of its graph. -/
structure App.Admits (app : App) (g : ActionGraph) (targets : Table String) : Prop where
  targetKeys : ∀ entry ∈ targets, entry.1 ∈ app.stateModel.keys
  references : ∀ entry ∈ targets, ∀ id, Expression.parse entry.2 = .reference id → id ∈ g.nodeIds

/-- What an application must be like. -/
structure App.WellFormed (app : App) : Prop where
  componentIds : (app.components.map Component.id).Nodup
  boundKeys : ∀ key ∈ app.components.filterMap Component.boundKey?, key ∈ app.stateModel.keys
  boundOnce : (app.components.filterMap Component.boundKey?).Nodup
  clickedOnce : (app.buttons.filterMap Button.onClick?).Nodup
  eventIds : (app.events.map EventDefinition.id).Nodup
  triggers : ∀ e ∈ app.events, e.trigger.componentId ∈ app.components.map Component.id
  graphs : ∀ e ∈ app.events, e.graph.WellFormed
  prompts : ∀ e ∈ app.events, ∀ id spec, Node.prompt id spec ∈ e.graph.nodes → app.Grounds spec
  transforms : ∀ e ∈ app.events, ∀ id targets, Node.transform id targets ∈ e.graph.nodes →
    app.Admits e.graph targets

/-! ## Elements and the elements before them -/

theorem nodup_map_iff_earlier {α : Type} {f : α → String} {as : List α} :
    (as.map f).Nodup ↔ ∀ front a back, as = front ++ a :: back → ∀ d ∈ front, f d ≠ f a := by
  rw [List.Nodup, List.pairwise_map, pairwise_iff_earlier]

theorem nodup_filterMap_iff_earlier {α : Type} {f : α → Option String} {as : List α} :
    (as.filterMap f).Nodup ↔
      ∀ front a back, as = front ++ a :: back → ∀ key, f a = some key → ∀ d ∈ front, f d ≠ some key := by
  rw [List.Nodup, List.pairwise_filterMap, pairwise_iff_earlier]
  constructor
  · intro h front a back heq key hkey d hd hclash
    exact h front a back heq d hd key hclash key hkey rfl
  · rintro h front a back heq d hd key hfirst other hsecond rfl
    exact h front a back heq key hsecond d hd hfirst

theorem forall_mem_iff_earlier {α : Type} {P : α → Prop} {as : List α} :
    (∀ a ∈ as, P a) ↔ ∀ front a back, as = front ++ a :: back → P a := by
  constructor
  · rintro h front a back rfl
    exact h a (by simp)
  · intro h a ha
    obtain ⟨front, back, heq⟩ := List.append_of_mem ha
    exact h front a back heq

/-! ## Components -/

theorem harmless_if {p : Prop} [Decidable p] {d : Diagnostic} (hd : d.isError = true) :
    Harmless (if p then [d] else []) ↔ ¬ p := by
  by_cases h : p <;> simp [Harmless, h, hd]

theorem harmless_unless {p : Prop} [Decidable p] {d : Diagnostic} (hd : d.isError = true) :
    Harmless (if p then [] else [d]) ↔ p := by
  by_cases h : p <;> simp [Harmless, h, hd]

/-- A claim to something that an earlier component owns is an error.  The exception for an owner with
the same id never applies where ids are distinct. -/
theorem harmless_owner {earlier : List Component} {c : Component} (hfresh : ∀ d ∈ earlier, d.id ≠ c.id)
    (owns : Component → Bool) {finding : Component → Diagnostic}
    (hfinding : ∀ d, (finding d).isError = true) :
    Harmless
        (match earlier.find? owns with
        | some owner => if owner.id = c.id then [] else [finding owner]
        | none => []) ↔
      ∀ d ∈ earlier, ¬ owns d = true := by
  cases h : earlier.find? owns with
  | none =>
    have hnone := List.find?_eq_none.1 h
    exact ⟨fun _ => hnone, fun _ => by simp [Harmless]⟩
  | some owner =>
    have hmem := List.mem_of_find?_eq_some h
    have howns := List.find?_some h
    dsimp only
    rw [harmless_unless (hfinding owner)]
    constructor
    · intro hsame
      exact absurd hsame (hfresh owner hmem)
    · intro hnone
      exact absurd howns (hnone owner hmem)

theorem Component.binding?_any {c : Component} {key : String} :
    (c.binding?.any fun b => decide (b.2 = key)) = true ↔ c.boundKey? = some key := by
  cases c <;> simp [binding?, boundKey?]

theorem harmless_checkBinding {app : App} {earlier : List Component} {c : Component}
    (hfresh : ∀ d ∈ earlier, d.id ≠ c.id) :
    Harmless (checkBinding app earlier c) ↔
      ∀ key, c.boundKey? = some key →
        key ∈ app.stateModel.keys ∧ ∀ d ∈ earlier, d.boundKey? ≠ some key := by
  have hbound : ∀ field key, c.binding? = some (field, key) → c.boundKey? = some key := by
    intro field key h
    rw [← Component.binding?_any, h]
    simp
  unfold checkBinding
  cases h : c.binding? with
  | none =>
    have hnone : c.boundKey? = none := by
      cases c with
      | button b => rfl
      | textArea a => cases h
      | dataTable t => cases h
    simp [Harmless, hnone]
  | some b =>
    obtain ⟨field, key⟩ := b
    have howner := harmless_owner hfresh (fun d => d.binding?.any fun b => decide (b.2 = key))
      fun owner => (rfl : (Diagnostic.sharedStateKey owner.id c.id field key).isError = true)
    dsimp only
    rw [harmless_append, harmless_ite (by rfl), Table.has_iff_mem_keys]
    refine (and_congr_right' howner).trans ?_
    simp only [Component.binding?_any, hbound field key h, Option.some.injEq]
    constructor
    · rintro hkey other rfl
      exact hkey
    · intro hall
      exact hall key rfl

theorem harmless_checkClick {earlier : List Component} {c : Component}
    (hfresh : ∀ d ∈ earlier, d.id ≠ c.id) :
    Harmless (checkClick earlier c) ↔
      ∀ eventId, c.clickEvent? = some eventId → ∀ d ∈ earlier, d.clickEvent? ≠ some eventId := by
  unfold checkClick
  cases h : c.clickEvent? with
  | none => simp [Harmless]
  | some eventId =>
    have howner := harmless_owner hfresh (fun d => decide (d.clickEvent? = some eventId))
      fun owner => (rfl : (Diagnostic.sharedTrigger owner.id c.id eventId).isError = true)
    refine howner.trans ?_
    simp only [decide_eq_true_eq, Option.some.injEq]
    constructor
    · rintro hkey other rfl
      exact hkey
    · intro hall
      exact hall eventId rfl

/-- A component passes when its id is new and so are its state key, which must be one of the state
model, and the event that a click on it names. -/
theorem harmless_checkComponent {app : App} {earlier : List Component} {c : Component} :
    Harmless (checkComponent app earlier c) ↔
      (∀ d ∈ earlier, d.id ≠ c.id) ∧
        (∀ key, c.boundKey? = some key →
          key ∈ app.stateModel.keys ∧ ∀ d ∈ earlier, d.boundKey? ≠ some key) ∧
        ∀ eventId, c.clickEvent? = some eventId → ∀ d ∈ earlier, d.clickEvent? ≠ some eventId := by
  have hids : (¬ (earlier.any fun d => decide (d.id = c.id)) = true) ↔ ∀ d ∈ earlier, d.id ≠ c.id := by
    simp
  unfold checkComponent
  rw [harmless_append, harmless_append, harmless_if (by rfl), hids, and_assoc]
  refine and_congr_right fun hfresh => ?_
  rw [harmless_checkBinding hfresh, harmless_checkClick hfresh]

theorem App.buttons_clicks (app : App) :
    app.buttons.filterMap Button.onClick? = app.components.filterMap Component.clickEvent? := by
  unfold buttons
  rw [List.filterMap_filterMap]
  rfl

/-- What the checks of components ask for. -/
theorem harmless_checkComponents {app : App} :
    Harmless (checkComponents app) ↔
      (app.components.map Component.id).Nodup ∧
        (∀ key ∈ app.components.filterMap Component.boundKey?, key ∈ app.stateModel.keys) ∧
        (app.components.filterMap Component.boundKey?).Nodup ∧
        (app.buttons.filterMap Button.onClick?).Nodup := by
  have hkeys : (∀ key ∈ app.components.filterMap Component.boundKey?, key ∈ app.stateModel.keys) ↔
      ∀ c ∈ app.components, ∀ key, c.boundKey? = some key → key ∈ app.stateModel.keys := by
    simp only [List.mem_filterMap]
    constructor
    · intro h c hc key hkey
      exact h key ⟨c, hc, hkey⟩
    · rintro h key ⟨c, hc, hkey⟩
      exact h c hc key hkey
  unfold checkComponents
  rw [App.buttons_clicks, nodup_map_iff_earlier, hkeys, forall_mem_iff_earlier,
    nodup_filterMap_iff_earlier, nodup_filterMap_iff_earlier, harmless_checkEach]
  simp only [List.nil_append, harmless_checkComponent]
  constructor
  · intro h
    refine ⟨fun front c back heq => (h front c back heq).1, fun front c back heq key hkey => ?_,
      fun front c back heq key hkey => ?_, fun front c back heq => (h front c back heq).2.2⟩
    · exact ((h front c back heq).2.1 key hkey).1
    · exact ((h front c back heq).2.1 key hkey).2
  · rintro ⟨hids, hhas, hbound, hclicks⟩ front c back heq
    exact ⟨hids front c back heq,
      fun key hkey => ⟨hhas front c back heq key hkey, hbound front c back heq key hkey⟩,
      hclicks front c back heq⟩

/-! ## Graphs and nodes -/

/-- A graph passes exactly when it is well-formed. -/
theorem harmless_checkGraph_iff {eventId : String} {g : ActionGraph} :
    Harmless (checkGraph eventId g) ↔ g.WellFormed := by
  have hunknown : (GraphOrder.compute g.nodeIds g.edges).unknownEdges = [] ↔
      ∀ e ∈ g.edges, e.source ∈ g.nodeIds ∧ e.target ∈ g.nodeIds := by
    simp only [GraphOrder.compute, List.filter_eq_nil_iff, Bool.not_eq_true', Bool.not_eq_false,
      GraphOrder.isKnown_iff]
  rw [harmless_checkGraph, hunknown, GraphOrder.isAcyclic_iff]
  constructor
  · rintro ⟨hids, hedges, hacyclic⟩
    rw [ActionGraph.leads_iff_edge hedges] at hacyclic
    exact ⟨hids, hedges, hacyclic⟩
  · rintro ⟨hids, hedges, hacyclic⟩
    rw [ActionGraph.leads_iff_edge hedges]
    exact ⟨hids, hedges, hacyclic⟩

theorem harmless_checkPrompt {app : App} {eventId nodeId : String} {spec : PromptSpec} :
    Harmless (checkPrompt app.stateModel (aliasTable app.components) eventId nodeId spec) ↔
      app.Grounds spec := by
  unfold checkPrompt
  rw [harmless_append, harmless_append, harmless_map (fun _ => by rfl), harmless_map (fun _ => by rfl),
    harmless_map (fun _ => by rfl)]
  simp only [List.filter_eq_nil_iff, Bool.not_eq_true', Bool.not_eq_false, Bool.and_eq_true, not_and,
    Table.has_iff_mem_keys, List.contains_iff_mem]
  constructor
  · rintro ⟨⟨htokens, hdeclared⟩, hlisted⟩
    exact ⟨htokens, hdeclared, fun t ht => hlisted t ht (htokens t ht)⟩
  · rintro ⟨htokens, hdeclared, hlisted⟩
    exact ⟨⟨htokens, hdeclared⟩, fun t ht _ => hlisted t ht⟩

/-- The check of an expression finds fault with a reference to what is no node. -/
theorem harmless_reference {nodeIds : List String} {eventId nodeId target : String} {x : Expression} :
    Harmless (match x with
      | .reference id => if nodeIds.contains id then [] else [.unknownReference eventId nodeId target id]
      | .literal _ => []) ↔
      ∀ id, x = .reference id → id ∈ nodeIds := by
  cases x with
  | literal value => simp [Harmless]
  | reference id =>
    dsimp only
    rw [harmless_ite (by rfl), List.contains_iff_mem]
    constructor
    · rintro hmem other h
      cases h
      exact hmem
    · intro h
      exact h id rfl

theorem harmless_checkTransform {app : App} {g : ActionGraph} {eventId nodeId : String}
    {targets : Table String} :
    Harmless (checkTransform app.stateModel g.nodeIds eventId nodeId targets) ↔
      app.Admits g targets := by
  unfold checkTransform
  rw [harmless_flatMap]
  constructor
  · intro h
    refine ⟨fun entry he => ?_, fun entry he => ?_⟩
    · exact Table.has_iff_mem_keys.1 ((harmless_ite (by rfl)).1 (harmless_append.1 (h entry he)).1)
    · exact harmless_reference.1 (harmless_append.1 (h entry he)).2
  · rintro ⟨htargets, hreferences⟩ entry he
    refine harmless_append.2 ⟨(harmless_ite (by rfl)).2 ?_, harmless_reference.2 (hreferences entry he)⟩
    exact Table.has_iff_mem_keys.2 (htargets entry he)

theorem harmless_checkNodes {app : App} {e : EventDefinition} :
    Harmless (e.graph.nodes.flatMap (checkNode app e)) ↔
      (∀ id spec, Node.prompt id spec ∈ e.graph.nodes → app.Grounds spec) ∧
        ∀ id targets, Node.transform id targets ∈ e.graph.nodes → app.Admits e.graph targets := by
  rw [harmless_flatMap]
  constructor
  · intro h
    exact ⟨fun id spec hnode => harmless_checkPrompt.1 (h _ hnode),
      fun id targets hnode => harmless_checkTransform.1 (h _ hnode)⟩
  · rintro ⟨hprompts, htransforms⟩ node hnode
    cases node with
    | validate id keys => simp [checkNode, Harmless]
    | prompt id spec => exact harmless_checkPrompt.2 (hprompts id spec hnode)
    | transform id targets => exact harmless_checkTransform.2 (htransforms id targets hnode)

/-! ## Events -/

/-- A trigger passes when its component is there; that it is no button is only a warning. -/
theorem harmless_checkTrigger {app : App} {e : EventDefinition} :
    Harmless (checkTrigger app e) ↔
      e.trigger.componentId ∈ app.components.map Component.id := by
  have hfound : (app.component? e.trigger.componentId).isSome = true ↔
      e.trigger.componentId ∈ app.components.map Component.id := by
    unfold App.component?
    rw [List.find?_isSome, List.mem_map]
    simp
  rw [← hfound]
  unfold checkTrigger
  cases app.component? e.trigger.componentId with
  | none => simp [Harmless, Diagnostic.isError, Diagnostic.severity]
  | some c =>
    cases c <;> simp [Harmless, Diagnostic.isError, Diagnostic.severity]

/-- What the checks of events ask for. -/
theorem harmless_checkEvents {app : App} :
    Harmless (checkEvents app) ↔
      (app.events.map EventDefinition.id).Nodup ∧
        ∀ e ∈ app.events,
          e.trigger.componentId ∈ app.components.map Component.id ∧ e.graph.WellFormed ∧
            (∀ id spec, Node.prompt id spec ∈ e.graph.nodes → app.Grounds spec) ∧
            ∀ id targets, Node.transform id targets ∈ e.graph.nodes → app.Admits e.graph targets := by
  have hids : ∀ (earlier : List EventDefinition) (e : EventDefinition),
      (¬ (earlier.any fun d => decide (d.id = e.id)) = true) ↔ ∀ d ∈ earlier, d.id ≠ e.id := by
    intro earlier e
    simp
  unfold checkEvents
  rw [nodup_map_iff_earlier, forall_mem_iff_earlier, harmless_checkEach]
  simp only [List.nil_append, checkEvent, harmless_append, harmless_if (d := .duplicateEvent _) (by rfl),
    hids, harmless_checkTrigger, harmless_checkGraph_iff, harmless_checkNodes, and_assoc]
  constructor
  · intro h
    exact ⟨fun front e back heq => (h front e back heq).1,
      fun front e back heq => (h front e back heq).2⟩
  · rintro ⟨hfresh, hevent⟩ front e back heq
    exact ⟨hfresh front e back heq, hevent front e back heq⟩

/-! ## Applications -/

/-- No check finds an error exactly in a well-formed application. -/
theorem accepted_iff_wellFormed {app : App} : app.Accepted ↔ app.WellFormed := by
  unfold App.Accepted checkApp
  rw [harmless_append, harmless_checkComponents, harmless_checkEvents]
  constructor
  · rintro ⟨⟨hids, hhas, hbound, hclicks⟩, hevents, hevent⟩
    exact
      { componentIds := hids
        boundKeys := hhas
        boundOnce := hbound
        clickedOnce := hclicks
        eventIds := hevents
        triggers := fun e he => (hevent e he).1
        graphs := fun e he => (hevent e he).2.1
        prompts := fun e he => (hevent e he).2.2.1
        transforms := fun e he => (hevent e he).2.2.2 }
  · intro h
    refine ⟨⟨h.componentIds, h.boundKeys, h.boundOnce, h.clickedOnce⟩, h.eventIds, fun e he => ?_⟩
    exact ⟨h.triggers e he, h.graphs e he, h.prompts e he, h.transforms e he⟩

instance (app : App) : Decidable app.WellFormed :=
  decidable_of_iff (∀ d ∈ checkApp app, d.isError = false) accepted_iff_wellFormed

/-- **What validation accepts**: exactly the values that are read as a well-formed application. -/
theorem validate_ok_exact (raw : Json) :
    (validate raw).ok = true ↔ ∃ app, App.ofJson raw = .ok app ∧ app.WellFormed := by
  rw [validate_ok_iff]
  constructor
  · rintro ⟨app, hread, hclean⟩
    exact ⟨app, hread, accepted_iff_wellFormed.1 hclean⟩
  · rintro ⟨app, hread, hformed⟩
    exact ⟨app, hread, accepted_iff_wellFormed.2 hformed⟩

end FormFlow
