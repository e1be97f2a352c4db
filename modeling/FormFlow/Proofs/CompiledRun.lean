import FormFlow.Compilation
import FormFlow.Proofs.PromptKeys

/-!
# Running what was compiled

Compiling refuses an application whose events could not run: an event that is not there, a graph with a
cycle, a token that is not declared.  The graphs of a release can always be ordered, and their nodes are
always found.  A token is different.  Validation reads the first template, and a run reads the normal
form, in which a state key stands between the braces; a key that is not `Plain` need not read back as
itself.  A prompt `ReadsBack` when every key that the run looks up is among its variables.

## Principal results

* `EventDefinition.readsBack_iff` — reading back, said of the normal form;
* `App.Accepted.readsBack` — plain state keys read back;
* `compiled_run` — the faults that a run of a release can end with.
-/

namespace FormFlow

/-! ## Prompts that read back -/

/-- Every key that a run of the prompt looks up is among its variables. -/
def PromptSpec.ReadsBack (aliases : Table String) (spec : PromptSpec) : Prop :=
  ∀ name ∈ Template.lookups spec.template,
    ∀ key ∈ Template.lookups (Template.braced (resolve aliases name)),
      key ∈ spec.declared.map (resolve aliases)

theorem PromptSpec.readsBack_iff {aliases : Table String} {spec : PromptSpec} :
    spec.ReadsBack aliases ↔
      ∀ key ∈ Template.lookups (spec.normalize aliases).template,
        key ∈ (spec.normalize aliases).declared := by
  unfold ReadsBack normalize
  simp only [Template.lookups_rekey, List.mem_flatMap]
  constructor
  · rintro h key ⟨name, hname, hkey⟩
    exact h name hname key hkey
  · intro h name hname key hkey
    exact h key ⟨name, hname, hkey⟩

/-- All prompts of an event read back. -/
def EventDefinition.ReadsBack (aliases : Table String) (e : EventDefinition) : Prop :=
  ∀ id spec, Node.prompt id spec ∈ e.graph.nodes → spec.ReadsBack aliases

theorem EventDefinition.prompt_normalize {aliases : Table String} {e : EventDefinition} {id : String}
    {spec : PromptSpec} :
    Node.prompt id spec ∈ (e.normalize aliases).graph.nodes ↔
      ∃ first, Node.prompt id first ∈ e.graph.nodes ∧ first.normalize aliases = spec := by
  unfold normalize ActionGraph.normalize
  rw [List.mem_map]
  constructor
  · rintro ⟨node, hnode, heq⟩
    cases node with
    | prompt id' first =>
      cases heq
      exact ⟨first, hnode, rfl⟩
    | validate id' keys => cases heq
    | transform id' targets => cases heq
  · rintro ⟨first, hfirst, rfl⟩
    exact ⟨_, hfirst, rfl⟩

/-- An event reads back exactly when its normal form looks up declared variables only. -/
theorem EventDefinition.readsBack_iff {aliases : Table String} {e : EventDefinition} :
    e.ReadsBack aliases ↔
      ∀ id spec, Node.prompt id spec ∈ (e.normalize aliases).graph.nodes →
        ∀ key ∈ Template.lookups spec.template, key ∈ spec.declared := by
  constructor
  · intro h id spec hspec
    obtain ⟨first, hfirst, rfl⟩ := prompt_normalize.1 hspec
    exact PromptSpec.readsBack_iff.1 (h id first hfirst)
  · intro h id spec hspec
    exact PromptSpec.readsBack_iff.2 (h id _ (prompt_normalize.2 ⟨spec, hspec, rfl⟩))

/-- In an accepted application an event reads back when the state keys of the text areas are plain and
none of them answers to the empty name. -/
theorem App.Accepted.readsBack {app : App} (h : app.Accepted) {e : EventDefinition}
    (he : e ∈ app.events)
    (hareas : ∀ a ∈ app.textAreas, Template.Plain a.stateKey ∧ ¬ a.Claims "") :
    e.ReadsBack (aliasTable app.components) := by
  intro id spec hspec name hname key hkey
  by_cases hempty : name = ""
  · -- A blank token stays blank, and empty braces are text.
    have hloose : normalizeKey "" = "" := by decide +kernel
    have hself : resolve (aliasTable app.components) "" = "" := by
      refine resolve_eq_self_iff.2 (.inr fun a ha => ?_)
      rw [hloose]
      exact ⟨(hareas a ha).2, (hareas a ha).2⟩
    rw [hempty, hself, Template.lookups_braced_empty] at hkey
    cases hkey
  · have htoken : name ∈ Template.keys spec.template := by
      rw [Template.keys_eq_lookups, List.mem_filter]
      exact ⟨hname, by simpa using hempty⟩
    have hplain : Template.Plain (resolve (aliasTable app.components) name) := by
      rcases resolve_aliasTable_cases app.components name with ⟨a, ha, hstate, _⟩ | ⟨hself, _⟩
      · rw [← hstate]
        exact (hareas a ha).1
      · rw [hself]
        exact Template.plain_of_mem_keys htoken
    rw [Template.lookups_braced hplain, List.mem_singleton] at hkey
    rw [hkey]
    exact ((h.prompt he hspec).1 name htoken).2

/-! ## Releases -/

/-- What is compiled is the release of the normal form of an accepted application. -/
theorem release_of_compile {settings : Settings} {raw : Json} {c : Compilation} {r : Release}
    (hc : compile settings raw = .ok c) (hr : c.release? = some r) :
    ∃ app, App.ofJson raw = .ok app ∧ app.Accepted ∧ release settings app.normalize = .ok r := by
  unfold compile at hc
  dsimp only at hc
  split at hc
  · cases hc
    cases hr
  · rename_i app happ
    obtain ⟨hread, haccepted⟩ := accepted?_eq_some_iff.1 happ
    refine ⟨app, hread, haccepted, ?_⟩
    cases hrelease : release settings app.normalize with
    | error e => rw [hrelease] at hc; cases hc
    | ok r' =>
      rw [hrelease] at hc
      cases hc
      cases hr
      rfl

/-- A release holds the normal form of an accepted application. -/
theorem compile_release {settings : Settings} {raw : Json} {c : Compilation} {r : Release}
    (hc : compile settings raw = .ok c) (hr : c.release? = some r) :
    ∃ app, App.ofJson raw = .ok app ∧ app.Accepted ∧ r.app = app.normalize := by
  obtain ⟨app, hread, haccepted, hrelease⟩ := release_of_compile hc hr
  obtain ⟨_, _, _, _, rfl⟩ := release_ok_iff.1 hrelease
  exact ⟨app, hread, haccepted, rfl⟩

theorem App.findEvent?_normalize (app : App) (eventId : String) :
    app.normalize.findEvent? eventId =
      (app.findEvent? eventId).map (EventDefinition.normalize (aliasTable app.components)) := by
  unfold normalize findEvent?
  rw [List.find?_map]
  rfl

/-- A run of an event can end with a cause. -/
def App.Raises (app : App) (eventId : String) (cause : Cause) : Prop :=
  ∃ (state : Table Json) (registry : Registry) (earlier : List Request) (f : EventError),
    (runEvent app ⟨eventId, state, registry⟩ earlier).result = .error (.event f) ∧ f.cause = cause

/-- The runs of an event of the normal form of an accepted application run its nodes in their order: a run
fails as its nodes do, and it succeeds when they pass. -/
theorem App.Accepted.runEvent_normalize {app : App} (h : app.Accepted) {eventId : String}
    {e : EventDefinition} (he : app.findEvent? eventId = some e) :
    ∃ nodes,
      (∀ node, node ∈ nodes ↔ node ∈ (e.normalize (aliasTable app.components)).graph.nodes) ∧
      nodes.map Node.id = (GraphOrder.compute (e.normalize (aliasTable app.components)).graph.nodeIds
        (e.normalize (aliasTable app.components)).graph.edges).order ∧
      ∀ state registry earlier,
        (∀ f, (runEvent app.normalize ⟨eventId, state, registry⟩ earlier).result = .error f →
          (runNodes ⟨eventId, state, registry⟩ nodes .start earlier).result = .error f) ∧
        ∀ result, (runEvent app.normalize ⟨eventId, state, registry⟩ earlier).result = .ok result →
          ∃ p, Passes ⟨eventId, state, registry⟩ nodes earlier .start p ∧ result = ⟨p.patch, p.logs⟩ := by
  have hmem := (App.findEvent?_mem he).1
  have hids := ActionGraph.normalize_nodeIds (aliasTable app.components) e.graph
  have hacyclic := h.acyclic hmem
  have hnodup := h.nodeIds_nodup hmem
  rw [← hids] at hacyclic hnodup
  obtain ⟨nodes, horder, hsub, hall, hrun⟩ := runGraph_acyclic hacyclic
  refine ⟨nodes, fun node => ⟨hsub node, hall hnodup node⟩, horder, fun state registry earlier => ?_⟩
  have hresult : (runEvent app.normalize ⟨eventId, state, registry⟩ earlier).result =
      (runNodes ⟨eventId, state, registry⟩ nodes .start earlier).result.map fun p => ⟨p.patch, p.logs⟩ := by
    unfold runEvent
    rw [App.findEvent?_normalize, he]
    exact congrArg Asked.result (hrun _ _)
  rw [hresult]
  cases hnodes : (runNodes ⟨eventId, state, registry⟩ nodes .start earlier).result with
  | error g =>
    constructor
    · rintro f ⟨⟩
      rfl
    · rintro result ⟨⟩
  | ok p =>
    constructor
    · rintro f ⟨⟩
    · rintro result ⟨⟩
      exact ⟨p, passes_of_runNodes_ok hnodes, rfl⟩

theorem App.exists_findEvent? {app : App} {e : EventDefinition} (he : e ∈ app.events) :
    ∃ found, app.findEvent? e.id = some found := by
  refine Option.isSome_iff_exists.1 ?_
  unfold findEvent?
  rw [List.find?_isSome]
  exact ⟨e, he, by simp⟩

theorem App.exists_event {app : App} {eventId : String}
    (h : eventId ∈ app.normalize.events.map EventDefinition.id) :
    ∃ e, app.findEvent? eventId = some e := by
  obtain ⟨normal, hnormal, rfl⟩ := List.mem_map.1 h
  obtain ⟨first, hfirst, rfl⟩ := List.mem_map.1 hnormal
  exact App.exists_findEvent? (e := first) hfirst

/-- Every fault of a run arises at a node, and a missing variable at a prompt that looks it up without
declaring it. -/
theorem App.Accepted.raises {app : App} (h : app.Accepted) {eventId : String} {e : EventDefinition}
    (he : app.findEvent? eventId = some e) {cause : Cause}
    (hraises : app.normalize.Raises eventId cause) :
    cause.AtNode ∧
      ∀ name, cause = .missingVariable name →
        ∃ id spec, .prompt id spec ∈ (e.normalize (aliasTable app.components)).graph.nodes ∧
          name ∈ Template.lookups spec.template ∧ name ∉ spec.declared := by
  obtain ⟨nodes, hnodes, _, hrun⟩ := h.runEvent_normalize he
  obtain ⟨state, registry, earlier, f, hresult, rfl⟩ := hraises
  obtain ⟨hcause, hmissing⟩ := runNodes_cause ((hrun state registry earlier).1 _ hresult)
  refine ⟨hcause, fun name hname => ?_⟩
  obtain ⟨id, spec, hspec, hlookup⟩ := hmissing name hname
  exact ⟨id, spec, (hnodes _).1 hspec, hlookup⟩

/-- An event with a prompt that does not read back has no successful run. -/
theorem App.Accepted.run_fails {app : App} (h : app.Accepted) {eventId : String} {e : EventDefinition}
    (he : app.findEvent? eventId = some e) (hfail : ¬ e.ReadsBack (aliasTable app.components))
    (state : Table Json) (registry : Registry) (earlier : List Request) (result : RunResult) :
    (runEvent app.normalize ⟨eventId, state, registry⟩ earlier).result ≠ .ok result := by
  intro hresult
  obtain ⟨nodes, hnodes, _, hrun⟩ := h.runEvent_normalize he
  rw [EventDefinition.readsBack_iff] at hfail
  simp only [not_forall] at hfail
  obtain ⟨id, spec, hspec, key, hkey, hmissing⟩ := hfail
  obtain ⟨p, hpasses, _⟩ := (hrun state registry earlier).2 result hresult
  obtain ⟨before, q, after, hstep⟩ := hpasses.step_of_mem ((hnodes _).2 hspec)
  exact runNode_missing hkey hmissing ⟨eventId, state, registry⟩ q after before (runNode_ok_iff.2 hstep)

/-- **What a run of a release can end with.**  Every event of a release is found, its graph is ordered
and its nodes are found, for every state, every registry of providers and whatever was asked before.
All prompts of the event read back exactly when no run misses a variable and the templates look up
declared variables only; plain state keys are enough for that.  When a prompt does not read back, no run
of the event succeeds. -/
theorem compiled_run {settings : Settings} {raw : Json} {c : Compilation} {r : Release}
    (hc : compile settings raw = .ok c) (hr : c.release? = some r) {eventId : String}
    (hid : eventId ∈ r.app.events.map EventDefinition.id) :
    ∃ app e, App.ofJson raw = .ok app ∧ app.findEvent? eventId = some e ∧
      r.app.findEvent? eventId = some (e.normalize (aliasTable app.components)) ∧
      (∀ message, ¬ r.app.Raises eventId (.unknownEvent message)) ∧
      (∀ message, ¬ r.app.Raises eventId (.cyclicGraph message)) ∧
      (∀ nodeId, ¬ r.app.Raises eventId (.absentNode nodeId)) ∧
      (e.ReadsBack (aliasTable app.components) ↔
        (∀ name, ¬ r.app.Raises eventId (.missingVariable name)) ∧
          ∀ id spec, Node.prompt id spec ∈ (e.normalize (aliasTable app.components)).graph.nodes →
            ∀ key ∈ Template.lookups spec.template, key ∈ spec.declared) ∧
      ((∀ a ∈ app.textAreas, Template.Plain a.stateKey ∧ ¬ a.Claims "") →
        e.ReadsBack (aliasTable app.components)) ∧
      (¬ e.ReadsBack (aliasTable app.components) → ∀ state registry earlier result,
        (runEvent r.app ⟨eventId, state, registry⟩ earlier).result ≠ .ok result) := by
  obtain ⟨app, hread, haccepted, happ⟩ := compile_release hc hr
  rw [happ] at hid ⊢
  obtain ⟨e, he⟩ := App.exists_event hid
  refine ⟨app, e, hread, he, ?_, ?_, ?_, ?_, ?_, ?_, ?_⟩
  · rw [App.findEvent?_normalize, he]
    rfl
  · intro message h
    cases (haccepted.raises he h).1
  · intro message h
    cases (haccepted.raises he h).1
  · intro nodeId h
    exact Cause.not_atNode_absentNode nodeId (haccepted.raises he h).1
  · rw [EventDefinition.readsBack_iff]
    constructor
    · intro hdeclared
      refine ⟨fun name h => ?_, hdeclared⟩
      obtain ⟨id, spec, hspec, hlookup, hmissing⟩ := (haccepted.raises he h).2 name rfl
      exact hmissing (hdeclared id spec hspec name hlookup)
    · exact fun h => h.2
  · exact haccepted.readsBack (App.findEvent?_mem he).1
  · exact haccepted.run_fails he

/-- An application that reads back as itself and compiles has a release with its normal form. -/
theorem exists_release {app : App} (hread : App.ofJson app.toJson = .ok app)
    (hcompiled : ((compile Settings.default app.toJson).toOption.bind Compilation.release?).isSome = true) :
    ∃ c r, compile Settings.default app.toJson = .ok c ∧ c.release? = some r ∧ r.app = app.normalize := by
  cases hc : compile Settings.default app.toJson with
  | error e =>
    rw [hc] at hcompiled
    cases hcompiled
  | ok c =>
    rw [hc] at hcompiled
    obtain ⟨r, hr⟩ := Option.isSome_iff_exists.1 hcompiled
    obtain ⟨found, hfound, _, hnormal⟩ := compile_release hc hr
    rw [hread] at hfound
    cases hfound
    exact ⟨c, r, rfl, hr, hnormal⟩

/-- A form that summarizes the notes of a text area. -/
def summaryForm (stateKey : String) : App :=
  promptForm [.textArea ⟨"input", "Notes", stateKey, ⟨none, none⟩⟩] [stateKey]
    "Summarize {{Notes}}" ["Notes"]

theorem summaryForm_release {stateKey : String}
    (hread : App.ofJson (summaryForm stateKey).toJson = .ok (summaryForm stateKey))
    (hcompiled : ((compile Settings.default (summaryForm stateKey).toJson).toOption.bind
      Compilation.release?).isSome = true) :
    ∃ c r, compile Settings.default (summaryForm stateKey).toJson = .ok c ∧ c.release? = some r ∧
      r.app = (summaryForm stateKey).normalize :=
  exists_release hread hcompiled

/-- The notes under a plain key: no run misses a variable. -/
theorem compiled_run_notes :
    ∃ c r, compile Settings.default (summaryForm "notes").toJson = .ok c ∧ c.release? = some r ∧
      "send" ∈ r.app.events.map EventDefinition.id ∧
        ∀ name, ¬ r.app.Raises "send" (.missingVariable name) := by
  have hread : App.ofJson (summaryForm "notes").toJson = .ok (summaryForm "notes") := by
    decide +kernel
  obtain ⟨c, r, hc, hr, hnormal⟩ := summaryForm_release hread (by decide +kernel)
  have hid : "send" ∈ r.app.events.map EventDefinition.id := by
    rw [hnormal]
    exact List.mem_singleton.2 rfl
  obtain ⟨app, e, happ, _, _, _, _, _, hiff, hplain, _⟩ := compiled_run hc hr hid
  rw [hread] at happ
  cases happ
  refine ⟨c, r, hc, hr, hid, (hiff.1 (hplain fun a ha => ?_)).1⟩
  cases List.mem_singleton.1 ha
  refine ⟨by decide, ?_⟩
  unfold TextArea.Claims
  decide +kernel

/-- The notes under a key that ends in a blank: the form compiles, and the run looks up the key without
the blank. -/
theorem compiled_run_misses :
    ¬ ∀ (settings : Settings) (raw : Json) (c : Compilation) (r : Release),
      compile settings raw = .ok c → c.release? = some r →
        ∀ eventId ∈ r.app.events.map EventDefinition.id, ∀ (state : Table Json) (registry : Registry),
          (∀ entry ∈ registry, ∀ before request, ∃ reply, entry.2 before request = .ok reply) →
            ∀ earlier f,
              (runEvent r.app ⟨eventId, state, registry⟩ earlier).result = .error (.event f) →
                ∀ name, f.cause ≠ .missingVariable name := by
  intro h
  have hread : App.ofJson (summaryForm "notes ").toJson = .ok (summaryForm "notes ") := by
    decide +kernel
  obtain ⟨c, r, hc, hr, hnormal⟩ := summaryForm_release hread (by decide +kernel)
  have hid : "send" ∈ r.app.events.map EventDefinition.id := by
    rw [hnormal]
    exact List.mem_singleton.2 rfl
  have hfault : (runEvent r.app ⟨"send", [("notes ", .str "Refund late.")],
      [("mock", Provider.fixed Provider.defaultPayload)]⟩ []).result =
        .error (.event ⟨.missingVariable "notes", some "send", some "ask"⟩) := by
    rw [hnormal]
    decide +kernel
  refine h _ _ c r hc hr "send" hid _ _ (fun entry hentry before request => ?_) [] _ hfault "notes" rfl
  cases List.mem_singleton.1 hentry
  exact ⟨_, rfl⟩

end FormFlow
