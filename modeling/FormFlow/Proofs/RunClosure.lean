import FormFlow.Proofs.CompiledRun
import FormFlow.Proofs.OutputProjection

/-!
# How a run of a compiled application ends

A run ends with a result or with a fault of the event, if all providers answer, all values of the state have a text,
and every declared shape can be checked against.  A value without a text is found out when it is put into a prompt, a
shape that nothing can be checked against only when there is an answer; such a failure is no fault of the event.
`ActionGraph.BreaksOff` says when a run comes to one.

## Principal results

* `PromptSpec.answer_breaksOff_iff` — when a prompt breaks off a run;
* `runNodes_error_iff` — a run that ends with no fault of the event comes to a prompt whose answer ends so;
* `compiled_run_closed` — how the runs of an accepted application end.
-/

namespace FormFlow

/-! ## Answers -/

/-- Every provider of a registry answers, whatever was asked before and is asked now. -/
def Registry.Answers (registry : Registry) : Prop :=
  ∀ name provider, registry.get? name = some provider →
    ∀ earlier request, ∃ reply, provider earlier request = .ok reply

/-- A prompt makes its request, and the text of the answer is read as a value. -/
def PromptSpec.Receives (spec : PromptSpec) (s : Setting) (earlier : List Request) (payload : Json) :
    Prop :=
  ∃ provider request reply,
    Prompt.requestFor s.registry spec.policy (s.values spec.declared) spec.template =
        .ok (provider, request) ∧
      provider earlier request = .ok reply ∧ Prompt.parseResponse reply.text = .ok payload

/-- A value can be checked against the shape of a prompt: the shape has a type, and its limits can be kept. -/
def PromptSpec.Checkable (spec : PromptSpec) : Prop :=
  Rule.Typed (outputRule spec.shape) ∧ Rule.Bounded (outputRule spec.shape)

instance (spec : PromptSpec) : Decidable spec.Checkable := inferInstanceAs (Decidable (_ ∧ _))

/-- A failure that breaks off a run: no fault of the event, and none of a provider. -/
inductive Failure.BreaksOff : Failure → Prop where
  | value (error : ValueError) : BreaksOff (.value error)
  | badBound : BreaksOff .badBound

/-- What a step gives is a failure that breaks off the run. -/
def BrokenOff {α : Type} (result : Except Failure α) : Prop := ∃ f : Failure, f.BreaksOff ∧ result = .error f

section

variable {α β : Type}

@[simp] theorem not_brokenOff_ok (a : α) : ¬ BrokenOff (.ok a) := fun ⟨_, _, h⟩ => nomatch h

@[simp] theorem not_brokenOff_event (e : EventError) : ¬ BrokenOff (α := α) (.error (.event e)) :=
  fun ⟨_, hf, h⟩ => by
    cases h
    cases hf

@[simp] theorem not_brokenOff_of (cause : Cause) : ¬ BrokenOff (α := α) (.error (.of cause)) :=
  not_brokenOff_event _

@[simp] theorem not_brokenOff_provider (message : String) : ¬ BrokenOff (α := α) (.error (.provider message)) :=
  fun ⟨_, hf, h⟩ => by
    cases h
    cases hf

@[simp] theorem brokenOff_value (error : ValueError) : BrokenOff (α := α) (.error (.value error)) :=
  ⟨_, .value error, rfl⟩

@[simp] theorem brokenOff_badBound : BrokenOff (α := α) (.error .badBound) := ⟨_, .badBound, rfl⟩

@[simp] theorem brokenOff_map {result : Except Failure α} (f : α → β) :
    BrokenOff (result.map f) ↔ BrokenOff result := by
  cases result with
  | ok a => simp [Except.map]
  | error g => simp [Except.map, BrokenOff]

end

/-- A prompt breaks off a run: its template comes to a value without a text, or its answer cannot be checked. -/
def PromptSpec.BreaksOff (spec : PromptSpec) (s : Setting) (earlier : List Request) : Prop :=
  (∃ error, Template.interpolate (s.values spec.declared) spec.template = .error (.value error)) ∨
    (∃ payload, spec.Receives s earlier payload) ∧ ¬ spec.Checkable

namespace Prompt

variable {registry : Registry} {policy : ModelPolicy} {values shape : Table Json} {template text : String}

theorem requestFor_breaksOff_iff :
    BrokenOff (requestFor registry policy values template) ↔
      ∃ error, Template.interpolate values template = .error (.value error) := by
  unfold requestFor
  cases Template.interpolate values template with
  | error fault => cases fault <;> simp [unfilled]
  | ok text => cases registry.get? policy.provider.text <;> simp

theorem checkOutput_breaksOff_iff {payload : Json} :
    BrokenOff (checkOutput shape payload) ↔
      ¬ (Rule.Typed (outputRule shape) ∧ Rule.Bounded (outputRule shape)) := by
  unfold checkOutput
  by_cases hready : Rule.Typed (outputRule shape) ∧ Rule.Bounded (outputRule shape)
  · rw [validateOutput_eq hready.1 hready.2]
    cases Shape.check (Shape.ofRule (outputRule shape)) payload <;> simp [hready]
  · rcases validateOutput_of_not_ready hready payload with ⟨e, he⟩ | hbad
    · simp [he, hready]
    · simp [hbad, hready]

theorem receive_breaksOff_iff :
    BrokenOff (receive shape text) ↔
      (∃ payload, parseResponse text = .ok payload) ∧
        ¬ (Rule.Typed (outputRule shape) ∧ Rule.Bounded (outputRule shape)) := by
  unfold receive
  cases parseResponse text with
  | error cause => simp
  | ok payload => simp [checkOutput_breaksOff_iff]

end Prompt

theorem Prompt.requestFor_ne_provider {registry : Registry} {policy : ModelPolicy} {values : Table Json}
    {template message : String} : requestFor registry policy values template ≠ .error (.provider message) := by
  unfold requestFor
  cases Template.interpolate values template with
  | error fault => cases fault <;> simp [unfilled, Failure.of]
  | ok text => cases registry.get? policy.provider.text <;> simp [Failure.of]

theorem Prompt.receive_ne_provider {shape : Table Json} {text message : String} :
    receive shape text ≠ .error (.provider message) := by
  unfold receive
  cases parseResponse text with
  | error cause => simp [Failure.of]
  | ok payload =>
    dsimp only
    unfold checkOutput
    cases validateOutput shape payload with
    | ok v => simp
    | error e => cases e <;> simp [Failure.of]

namespace PromptSpec

variable {spec : PromptSpec} {s : Setting} {earlier : List Request}

theorem answer_of_error {f : Failure}
    (h : Prompt.requestFor s.registry spec.policy (s.values spec.declared) spec.template = .error f) :
    spec.answer s earlier = .error f := by
  unfold answer Prompt.ask
  rw [h]
  rfl

theorem answer_of_broken {provider : Provider} {request : Request} {message : String}
    (h : Prompt.requestFor s.registry spec.policy (s.values spec.declared) spec.template =
      .ok (provider, request)) (hbroken : provider earlier request = .error message) :
    spec.answer s earlier = .error (.provider message) := by
  unfold answer Prompt.ask
  rw [h]
  dsimp only
  rw [hbroken]
  rfl

theorem answer_of_reply {provider : Provider} {request : Request} {reply : Reply}
    (h : Prompt.requestFor s.registry spec.policy (s.values spec.declared) spec.template =
      .ok (provider, request)) (hreply : provider earlier request = .ok reply) :
    spec.answer s earlier = Prompt.receive spec.shape reply.text := by
  unfold answer Prompt.ask
  rw [h]
  dsimp only
  rw [hreply]
  dsimp only
  cases Prompt.receive spec.shape reply.text <;> rfl

/-- **When a prompt breaks off a run.** -/
theorem answer_breaksOff_iff : BrokenOff (spec.answer s earlier) ↔ spec.BreaksOff s earlier := by
  have hfill :
      BrokenOff (Prompt.requestFor s.registry spec.policy (s.values spec.declared) spec.template) ↔
        ∃ error, Template.interpolate (s.values spec.declared) spec.template = .error (.value error) :=
    Prompt.requestFor_breaksOff_iff
  rw [BreaksOff, ← hfill]
  cases hrequest : Prompt.requestFor s.registry spec.policy (s.values spec.declared) spec.template with
  | error f =>
    have hnone : ¬ ∃ payload, spec.Receives s earlier payload := by
      rintro ⟨payload, provider, request, reply, hok, _⟩
      rw [hrequest] at hok
      cases hok
    rw [answer_of_error hrequest]
    simp [hnone, BrokenOff]
  | ok asked =>
    obtain ⟨provider, request⟩ := asked
    rw [or_iff_right (not_brokenOff_ok _)]
    cases hreply : provider earlier request with
    | error message =>
      have hnone : ¬ ∃ payload, spec.Receives s earlier payload := by
        rintro ⟨payload, other, asked, reply, hok, hanswer, _⟩
        rw [hrequest] at hok
        cases hok
        rw [hreply] at hanswer
        cases hanswer
      rw [answer_of_broken hrequest hreply]
      simp [hnone]
    | ok reply =>
      have hreceives : (∃ payload, spec.Receives s earlier payload) ↔
          ∃ payload, Prompt.parseResponse reply.text = .ok payload := by
        refine exists_congr fun payload => ⟨?_, fun h => ⟨provider, request, reply, hrequest, hreply, h⟩⟩
        rintro ⟨other, asked, found, hok, hanswer, hparse⟩
        rw [hrequest] at hok
        cases hok
        rw [hreply] at hanswer
        cases hanswer
        exact hparse
      rw [answer_of_reply hrequest hreply, Prompt.receive_breaksOff_iff, hreceives]
      rfl

/-- If all providers answer, no prompt fails because one broke down. -/
theorem answer_ne_provider (hanswers : s.registry.Answers) (message : String) :
    spec.answer s earlier ≠ .error (.provider message) := by
  intro h
  cases hrequest : Prompt.requestFor s.registry spec.policy (s.values spec.declared) spec.template with
  | error f =>
    rw [answer_of_error hrequest] at h
    cases h
    exact Prompt.requestFor_ne_provider hrequest
  | ok asked =>
    obtain ⟨provider, request⟩ := asked
    obtain ⟨reply, hreply⟩ := hanswers _ _ (Prompt.requestFor_provider hrequest) earlier request
    rw [answer_of_reply hrequest hreply] at h
    exact Prompt.receive_ne_provider h

end PromptSpec

/-! ## Runs -/

/-- What is no fault of the event is the failure of an answer. -/
theorem runNode_error_of_not_event {s : Setting} {node : Node} {p : Progress} {earlier : List Request}
    {f : Failure} (h : (runNode s node p earlier).result = .error f) (hf : ∀ e, f ≠ .event e) :
    ∃ id spec, node = .prompt id spec ∧ spec.answer s earlier = .error f := by
  cases node with
  | validate id keys =>
    rw [runNode] at h
    split at h
    · cases h
      exact absurd rfl (hf _)
    · cases h
  | prompt id spec =>
    rw [runNode_prompt] at h
    refine ⟨id, spec, rfl, ?_⟩
    cases hanswer : spec.answer s earlier with
    | ok output =>
      rw [hanswer] at h
      cases h
    | error g =>
      rw [hanswer] at h
      cases h
      rfl
  | transform id targets =>
    rw [runNode] at h
    split at h
    · cases h
      exact absurd rfl (hf _)
    · cases h

theorem Failure.withContext_eq_iff {f g : Failure} (hf : ∀ e, f ≠ .event e)
    {eventId nodeId : Option String} : g.withContext eventId nodeId = f ↔ g = f := by
  cases g with
  | event e =>
    constructor <;> rintro rfl
    · exact absurd rfl (hf _)
    · exact absurd rfl (hf _)
  | provider message => rfl
  | value error => rfl
  | badBound => rfl

/-- A run ends with what is no fault of the event exactly if its nodes pass up to a prompt whose answer ends
so. -/
theorem runNodes_error_iff {s : Setting} {nodes : List Node} {p : Progress} {earlier : List Request}
    {f : Failure} (hf : ∀ e, f ≠ .event e) :
    (runNodes s nodes p earlier).result = .error f ↔
      ∃ front id spec back q, nodes = front ++ .prompt id spec :: back ∧ Passes s front earlier p q ∧
        spec.answer s (earlier ++ front.filterMap (Node.request? s)) = .error f := by
  constructor
  · intro h
    -- A run that ends early stops at one node, and those before it pass.
    rcases runNodes_passes_or_stops s nodes p earlier with
      ⟨q, hpasses⟩ | ⟨front, node, back, q, g, rfl, hpasses, hnode, hrun⟩
    · rw [hpasses.runNodes_eq] at h
      cases h
    · rw [hrun, Except.error.injEq, Failure.withContext_eq_iff hf] at h
      rw [h] at hnode
      obtain ⟨id, spec, rfl, hanswer⟩ := runNode_error_of_not_event hnode hf
      exact ⟨front, id, spec, back, q, rfl, hpasses, hanswer⟩
  · rintro ⟨front, id, spec, back, q, rfl, hpasses, hanswer⟩
    have hnode := runNode_prompt s id spec q (earlier ++ front.filterMap (Node.request? s))
    rw [hanswer] at hnode
    rw [runNodes_append, hpasses.runNodes_eq]
    dsimp only
    rw [runNodes]
    rcases hrun : runNode s (.prompt id spec) q (earlier ++ front.filterMap (Node.request? s)) with
      ⟨requests, result⟩
    rw [hrun] at hnode
    cases hnode
    exact congrArg Except.error ((Failure.withContext_eq_iff hf).2 rfl)

/-- A run of nodes breaks off exactly if they pass up to a prompt that breaks it off. -/
theorem runNodes_breaksOff_iff {s : Setting} {nodes : List Node} {p : Progress} {earlier : List Request} :
    BrokenOff (runNodes s nodes p earlier).result ↔
      ∃ front id spec back q, nodes = front ++ .prompt id spec :: back ∧ Passes s front earlier p q ∧
        spec.BreaksOff s (earlier ++ front.filterMap (Node.request? s)) := by
  have hevent : ∀ {f : Failure}, f.BreaksOff → ∀ e, f ≠ .event e := by
    rintro f hf e rfl
    cases hf
  constructor
  · rintro ⟨f, hf, hresult⟩
    obtain ⟨front, id, spec, back, q, heq, hpasses, hanswer⟩ := (runNodes_error_iff (hevent hf)).1 hresult
    exact ⟨front, id, spec, back, q, heq, hpasses, PromptSpec.answer_breaksOff_iff.1 ⟨f, hf, hanswer⟩⟩
  · rintro ⟨front, id, spec, back, q, heq, hpasses, hbreaks⟩
    obtain ⟨f, hf, hanswer⟩ := PromptSpec.answer_breaksOff_iff.2 hbreaks
    exact ⟨f, hf, (runNodes_error_iff (hevent hf)).2 ⟨front, id, spec, back, q, heq, hpasses, hanswer⟩⟩

/-! ## Events -/

/-- Nodes of a graph with distinct ids are known by their ids. -/
theorem ActionGraph.eq_of_map_id_eq {g : ActionGraph} (hids : g.nodeIds.Nodup) {nodes others : List Node}
    (hnodes : ∀ node ∈ nodes, node ∈ g.nodes) (hothers : ∀ node ∈ others, node ∈ g.nodes)
    (h : nodes.map Node.id = others.map Node.id) : nodes = others := by
  induction nodes generalizing others with
  | nil => exact (List.map_eq_nil_iff.1 h.symm).symm
  | cons node nodes ih =>
    cases others with
    | nil => cases h
    | cons other others =>
      rw [List.map_cons, List.map_cons, List.cons.injEq] at h
      rw [List.forall_mem_cons] at hnodes hothers
      rw [List.inj_on_of_nodup_map hids hnodes.1 hothers.1 h.1, ih hnodes.2 hothers.2 h.2]

/-- A run comes to a prompt that breaks it off. -/
def ActionGraph.BreaksOff (g : ActionGraph) (s : Setting) (earlier : List Request) : Prop :=
  ∃ order front id spec back q,
    order.map Node.id = (GraphOrder.compute g.nodeIds g.edges).order ∧ (∀ node ∈ order, node ∈ g.nodes) ∧
      order = front ++ .prompt id spec :: back ∧ Passes s front earlier .start q ∧
      spec.BreaksOff s (earlier ++ front.filterMap (Node.request? s))

theorem runGraph_breaksOff_iff {g : ActionGraph} {s : Setting} {earlier : List Request}
    (hids : g.nodeIds.Nodup) (hacyclic : (GraphOrder.compute g.nodeIds g.edges).isAcyclic = true) :
    BrokenOff (runGraph s g earlier).result ↔ g.BreaksOff s earlier := by
  obtain ⟨nodes, horder, hsub, _, hrun⟩ := runGraph_acyclic hacyclic
  rw [hrun, brokenOff_map, runNodes_breaksOff_iff]
  constructor
  · rintro ⟨front, id, spec, back, q, heq, hpasses, hbreaks⟩
    exact ⟨nodes, front, id, spec, back, q, horder, hsub, heq, hpasses, hbreaks⟩
  · rintro ⟨order, front, id, spec, back, q, hother, hmem, heq, hpasses, hbreaks⟩
    -- The ids leave no choice in the order of the nodes.
    have hsame := ActionGraph.eq_of_map_id_eq hids hsub hmem (horder.trans hother.symm)
    exact ⟨front, id, spec, back, q, hsame.trans heq, hpasses, hbreaks⟩

theorem runGraph_ne_provider {g : ActionGraph} {s : Setting} {earlier : List Request}
    (hacyclic : (GraphOrder.compute g.nodeIds g.edges).isAcyclic = true) (hanswers : s.registry.Answers)
    (message : String) : (runGraph s g earlier).result ≠ .error (.provider message) := by
  obtain ⟨nodes, _, _, _, hrun⟩ := runGraph_acyclic hacyclic
  intro h
  rw [hrun] at h
  cases hnodes : (runNodes s nodes .start earlier).result with
  | ok p =>
    rw [hnodes] at h
    cases h
  | error f =>
    rw [hnodes] at h
    cases h
    obtain ⟨_, _, _, _, _, _, _, hanswer⟩ := (runNodes_error_iff (by simp)).1 hnodes
    exact PromptSpec.answer_ne_provider hanswers message hanswer

section

variable {app : App} {s : Setting} {earlier : List Request}

theorem runEvent_of_none (h : app.findEvent? s.eventId = none) :
    (runEvent app s earlier).result = .error (.event ⟨.noEvent s.eventId, some s.eventId, none⟩) := by
  unfold runEvent
  rw [h]

theorem runEvent_of_some {e : EventDefinition} (h : app.findEvent? s.eventId = some e) :
    runEvent app s earlier = runGraph s e.graph earlier := by
  unfold runEvent
  rw [h]

namespace App.Accepted

/-- The graphs of the normal form have distinct ids and can be ordered. -/
theorem graph_normalize (h : app.Accepted) {e : EventDefinition} (he : e ∈ app.normalize.events) :
    e.graph.nodeIds.Nodup ∧ (GraphOrder.compute e.graph.nodeIds e.graph.edges).isAcyclic = true := by
  obtain ⟨first, hfirst, rfl⟩ := List.mem_map.1 he
  have hids := h.nodeIds_nodup hfirst
  have hacyclic := h.acyclic hfirst
  rw [← ActionGraph.normalize_nodeIds (aliasTable app.components) first.graph] at hids hacyclic
  exact ⟨hids, hacyclic⟩

theorem runEvent_breaksOff_iff (h : app.Accepted) :
    BrokenOff (runEvent app.normalize s earlier).result ↔
      ∃ e, app.normalize.findEvent? s.eventId = some e ∧ e.graph.BreaksOff s earlier := by
  cases hfound : app.normalize.findEvent? s.eventId with
  | none => simp [runEvent_of_none hfound]
  | some e =>
    obtain ⟨hids, hacyclic⟩ := h.graph_normalize (App.findEvent?_mem hfound).1
    simp [runEvent_of_some hfound, runGraph_breaksOff_iff hids hacyclic]

theorem runEvent_ne_provider (h : app.Accepted) (hanswers : s.registry.Answers) (message : String) :
    (runEvent app.normalize s earlier).result ≠ .error (.provider message) := by
  cases hfound : app.normalize.findEvent? s.eventId with
  | none => simp [runEvent_of_none hfound]
  | some e =>
    rw [runEvent_of_some hfound]
    exact runGraph_ne_provider (h.graph_normalize (App.findEvent?_mem hfound).1).2 hanswers message

end App.Accepted

end

/-- Where all values of the state have a text, a template never comes to one that has none. -/
theorem Setting.interpolate_ne_value {s : Setting} (hstate : ∀ entry ∈ s.state, entry.2.Writable)
    (names : List String) (template : String) (error : ValueError) :
    Template.interpolate (s.values names) template ≠ .error (.value error) := by
  intro h
  obtain ⟨key, _, hfault⟩ := List.exists_of_findSome?_eq_some (Template.interpolate_error_iff.1 h)
  cases hv : (s.values names).get? key with
  | none =>
    rw [Template.fault?_of_none hv] at hfault
    cases hfault
  | some v =>
    have hwritable : v.Writable := by
      obtain ⟨_, _, heq⟩ := List.mem_map.1 (Table.mem_of_get? hv)
      cases heq
      unfold Setting.valueOf
      cases hkey : s.state.get? key with
      | none => exact List.forall_mem_nil _
      | some w => exact hstate _ (Table.mem_of_get? hkey)
    rw [Template.fault?_of_some hv, if_pos hwritable] at hfault
    cases hfault

/-- **How the runs of a compiled application end**, for every event id, every state, every registry of
providers that answer, and any earlier requests.  A run ends with a result or with a fault of the event unless
it comes to a prompt that breaks it off, because of a value without a text or a shape that nothing can be checked
against; then it ends with that failure.  If every shape can be checked against, and all values of the state have a
text, no run does. -/
theorem compiled_run_closed {settings : Settings} {raw : Json} {c : Compilation} {r : Release}
    (hc : compile settings raw = .ok c) (hr : c.release? = some r) {registry : Registry}
    (hanswers : registry.Answers) (eventId : String) (state : Table Json) (earlier : List Request) :
    let s : Setting := ⟨eventId, state, registry⟩
    let result := (runEvent r.app s earlier).result
    (((∃ out, result = .ok out) ∨ ∃ f, result = .error (.event f)) ↔
        ¬ ∃ e, r.app.findEvent? eventId = some e ∧ e.graph.BreaksOff s earlier) ∧
      ((∃ e, r.app.findEvent? eventId = some e ∧ e.graph.BreaksOff s earlier) → BrokenOff result) ∧
      ((∀ e ∈ r.app.events, ∀ id spec, .prompt id spec ∈ e.graph.nodes → spec.Checkable) →
        (∀ entry ∈ state, entry.2.Writable) →
        (∃ out, result = .ok out) ∨ ∃ f, result = .error (.event f)) := by
  intro s result
  obtain ⟨app, _, haccepted, hnormal⟩ := compile_release hc hr
  have hbreaks : BrokenOff result ↔ ∃ e, r.app.findEvent? eventId = some e ∧ e.graph.BreaksOff s earlier := by
    simp only [result, hnormal]
    exact haccepted.runEvent_breaksOff_iff
  have hprovider (message : String) : result ≠ .error (.provider message) := by
    simp only [result, hnormal]
    exact haccepted.runEvent_ne_provider hanswers message
  have hends : ((∃ out, result = .ok out) ∨ ∃ f, result = .error (.event f)) ↔ ¬ BrokenOff result := by
    rcases hresult : result with (_ | message | _ | _) | out
    · simp
    · exact absurd hresult (hprovider message)
    · simp
    · simp
    · simp
  refine ⟨hends.trans (not_congr hbreaks), hbreaks.2, fun hkept hstate => hends.2 fun hresult => ?_⟩
  obtain ⟨e, hfound, order, front, id, spec, back, q, _, hmem, rfl, _, hbreak⟩ := hbreaks.1 hresult
  rcases hbreak with ⟨error, hfill⟩ | ⟨_, hunkept⟩
  · exact Setting.interpolate_ne_value hstate _ _ _ hfill
  · exact hunkept (hkept e (App.findEvent?_mem hfound).1 id spec (hmem _ (by simp)))

/-- A form that asks for a reply with a bound on its length. -/
def boundedForm (least : Int) : App :=
  { summaryForm "notes" with
    events := [⟨"send", ⟨"input", .onChange⟩,
      ⟨[.prompt "ask" ⟨"Summarize {{Notes}}", ["Notes"], ⟨.mock, "m", none⟩,
        [("reply", .obj [("type", .str "string"), ("minLength", .ofInt least)])]⟩], []⟩⟩] }

/-- Every answer is a short reply. -/
def shortReplies : Registry := [("mock", Provider.fixed (.obj [("reply", .str "Sorry.")]))]

theorem shortReplies_answers : shortReplies.Answers := by
  intro name provider hprovider earlier request
  have hmem := Table.mem_of_get? hprovider
  simp only [shortReplies, List.mem_cons, List.not_mem_nil, or_false, Prod.mk.injEq] at hmem
  obtain ⟨_, rfl⟩ := hmem
  exact ⟨_, Provider.fixed_of_writable (by decide) _ _⟩

/-- A bound of one character can be kept, so that a run ends as it should. -/
theorem compiled_run_closed_reply :
    shortReplies.Answers ∧
      ∃ c r, compile Settings.default (boundedForm 1).toJson = .ok c ∧ c.release? = some r ∧
        ((∃ out, (runEvent r.app ⟨"send", [("notes", .str "Late.")], shortReplies⟩ []).result = .ok out) ∨
          ∃ f, (runEvent r.app ⟨"send", [("notes", .str "Late.")], shortReplies⟩ []).result =
            .error (.event f)) := by
  have hread : App.ofJson (boundedForm 1).toJson = .ok (boundedForm 1) := by decide +kernel
  obtain ⟨c, r, hc, hr, hnormal⟩ := exists_release hread (by decide +kernel)
  refine ⟨shortReplies_answers, c, r, hc, hr, ?_⟩
  refine (compiled_run_closed hc hr shortReplies_answers "send" _ []).2.2 (fun e he id spec hspec => ?_) ?_
  · rw [hnormal] at he
    cases List.mem_singleton.1 he
    cases List.mem_singleton.1 hspec
    decide +kernel
  · exact List.forall_mem_singleton.2 (Json.writable_str _)

/-- No text is shorter than a bound below zero, but the bound cannot be kept, and the run breaks off. -/
theorem compiled_run_breaks_off :
    ∃ c r, compile Settings.default (boundedForm (-1)).toJson = .ok c ∧ c.release? = some r ∧
      shortReplies.Answers ∧
      (runEvent r.app ⟨"send", [("notes", .str "Late.")], shortReplies⟩ []).result = .error .badBound := by
  have hread : App.ofJson (boundedForm (-1)).toJson = .ok (boundedForm (-1)) := by decide +kernel
  obtain ⟨c, r, hc, hr, hnormal⟩ := exists_release hread (by decide +kernel)
  refine ⟨c, r, hc, hr, shortReplies_answers, ?_⟩
  rw [hnormal]
  decide +kernel

end FormFlow
