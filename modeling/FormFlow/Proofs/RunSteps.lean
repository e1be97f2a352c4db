import FormFlow.Execution
import FormFlow.Proofs.ReleaseOrder

/-!
# What the nodes of a run do

`Step` says what a node does that passes, with one rule for each kind of node, and `Passes` chains the
steps of a list of nodes.  The request of a node depends on the state and the registry alone, so the
requests of a list of nodes that pass can be told beforehand.

## Principal results

* `runNode_ok_iff` — a node passes exactly by its rule;
* `runNode_requests` — the requests of a node, whether it passes or fails;
* `runNodes_passes_or_stops` — a run passes all of its nodes, or those before the one at which it stops;
* `runGraph_acyclic` — a graph without a cycle runs its nodes;
* `runEvent_orders` — running an event is running an order of its nodes.
-/

namespace FormFlow

/-! ## Nodes -/

namespace Node

/-- The stage that a node reports. -/
def stage : Node → Stage
  | validate .. => .validate
  | prompt .. => .prompt
  | transform .. => .transform

/-- What a node reports when it has passed. -/
def report : Node → String
  | validate _ keys => s!"Validated {keys.length} state keys."
  | prompt id spec => s!"PromptTask '{id}' executed via '{spec.policy.provider.text}'."
  | transform _ targets => s!"Mapped {targets.length} outputs into state patch."

/-- The entry of a node in the log of an event. -/
def logEntry (eventId : String) (node : Node) : LogEntry := ⟨eventId, node.stage, node.report⟩

/-- The node asks a provider. -/
def isPrompt (node : Node) : Bool := decide (node.stage = .prompt)

/-- The request of a node: a prompt has one if it can be filled in and its provider is registered. -/
def request? (s : Setting) : Node → Option Request
  | prompt _ spec =>
    (Prompt.requestFor s.registry spec.policy (s.values spec.declared) spec.template).toOption.map
      Prod.snd
  | _ => none

theorem append_requests (s : Setting) (earlier : List Request) (node : Node) (nodes : List Node) :
    earlier ++ (node.request? s).toList ++ nodes.filterMap (request? s) =
      earlier ++ (node :: nodes).filterMap (request? s) := by
  cases h : node.request? s <;> simp [h]

theorem isPrompt_of_request? {s : Setting} {node : Node} (h : (node.request? s).isSome = true) :
    node.isPrompt = true := by
  cases node with
  | prompt id spec => rfl
  | _ => cases h

end Node

/-- What the answer to a prompt leaves as output, after the requests made before. -/
def PromptSpec.answer (spec : PromptSpec) (s : Setting) (earlier : List Request) : Except Failure Json :=
  (Prompt.ask s.registry spec.policy spec.shape (s.values spec.declared) spec.template
    earlier).result.map PromptResult.output

theorem Prompt.ask_requests_eq (registry : Registry) (policy : ModelPolicy) (shape values : Table Json)
    (template : String) (earlier : List Request) :
    (ask registry policy shape values template earlier).requests =
      earlier ++ ((requestFor registry policy values template).toOption.map Prod.snd).toList := by
  unfold ask
  cases requestFor registry policy values template with
  | error cause => exact (List.append_nil earlier).symm
  | ok asked => rfl

/-- A prompt that has an answer has made a request. -/
theorem PromptSpec.request_of_answer {spec : PromptSpec} {s : Setting} {earlier : List Request}
    {output : Json} (h : spec.answer s earlier = .ok output) (id : String) :
    ((Node.prompt id spec).request? s).isSome = true := by
  unfold answer Prompt.ask at h
  rw [Node.request?]
  cases hrequest : Prompt.requestFor s.registry spec.policy (s.values spec.declared) spec.template with
  | error cause =>
    rw [hrequest] at h
    cases h
  | ok asked => rfl

/-- What a node does that passes. -/
inductive Step (s : Setting) (earlier : List Request) (p : Progress) : Node → Progress → Prop where
  | validate {id : String} {keys : List String} (held : ∀ key ∈ keys, s.isVacant key = false) :
      Step s earlier p (.validate id keys)
        { p with logs := p.logs ++ [(Node.validate id keys).logEntry s.eventId] }
  | prompt {id : String} {spec : PromptSpec} {output : Json}
      (answered : spec.answer s earlier = .ok output) :
      Step s earlier p (.prompt id spec)
        { p with
          outputs := p.outputs.put id output
          logs := p.logs ++ [(Node.prompt id spec).logEntry s.eventId] }
  | transform {id : String} {targets : Table String} {patch : Table Json}
      (mapped : mapTargets p.outputs targets p.patch = .ok patch) :
      Step s earlier p (.transform id targets)
        { p with
          patch := patch
          logs := p.logs ++ [(Node.transform id targets).logEntry s.eventId] }

section

variable {s : Setting} {node : Node} {p q : Progress} {earlier : List Request}

theorem runNode_prompt (s : Setting) (id : String) (spec : PromptSpec) (p : Progress)
    (earlier : List Request) :
    (runNode s (.prompt id spec) p earlier).result =
      (spec.answer s earlier).map fun output =>
        { p with
          outputs := p.outputs.put id output
          logs := p.logs ++ [(Node.prompt id spec).logEntry s.eventId] } := by
  rw [runNode, PromptSpec.answer]
  dsimp only
  cases (Prompt.ask s.registry spec.policy spec.shape (s.values spec.declared) spec.template
    earlier).result <;> rfl

/-- **A node passes exactly by the rule of its kind.** -/
theorem runNode_ok_iff : (runNode s node p earlier).result = .ok q ↔ Step s earlier p node q := by
  cases node with
  | validate id keys =>
    rw [runNode]
    cases hvacant : keys.find? s.isVacant with
    | some key =>
      constructor
      · intro h
        cases h
      · rintro (held | _ | _)
        have hkey := List.find?_some hvacant
        rw [held key (List.mem_of_find?_eq_some hvacant)] at hkey
        cases hkey
    | none =>
      constructor
      · intro h
        cases h
        refine .validate fun key hkey => ?_
        simpa using List.find?_eq_none.1 hvacant key hkey
      · rintro (_ | _ | _)
        rfl
  | prompt id spec =>
    rw [runNode_prompt]
    cases hanswer : spec.answer s earlier with
    | error f =>
      constructor
      · intro h
        cases h
      · rintro (_ | answered | _)
        rw [hanswer] at answered
        cases answered
    | ok output =>
      constructor
      · intro h
        cases h
        exact .prompt hanswer
      · rintro (_ | answered | _)
        rw [hanswer] at answered
        cases answered
        rfl
  | transform id targets =>
    rw [runNode]
    cases hmapped : mapTargets p.outputs targets p.patch with
    | error nodeId =>
      constructor
      · intro h
        cases h
      · rintro (_ | _ | mapped)
        rw [hmapped] at mapped
        cases mapped
    | ok patch =>
      constructor
      · intro h
        cases h
        exact .transform hmapped
      · rintro (_ | _ | mapped)
        rw [hmapped] at mapped
        cases mapped
        rfl

theorem runNode_requests (s : Setting) (node : Node) (p : Progress) (earlier : List Request) :
    (runNode s node p earlier).requests = earlier ++ (node.request? s).toList := by
  cases node with
  | validate id keys =>
    rw [runNode]
    split <;> exact (List.append_nil earlier).symm
  | prompt id spec => exact Prompt.ask_requests_eq ..
  | transform id targets =>
    rw [runNode]
    split <;> exact (List.append_nil earlier).symm

theorem Step.logs (h : Step s earlier p node q) : q.logs = p.logs ++ [node.logEntry s.eventId] := by
  cases h <;> rfl

/-- A prompt that passes has made its request. -/
theorem Step.request (h : Step s earlier p node q) (hprompt : node.isPrompt = true) :
    (node.request? s).isSome = true := by
  cases h with
  | prompt answered => exact PromptSpec.request_of_answer answered _
  | _ => cases hprompt

end

/-! ## Lists of nodes -/

/-- The nodes of a list pass one after another. -/
inductive Passes (s : Setting) : List Node → List Request → Progress → Progress → Prop where
  | nil (earlier : List Request) (p : Progress) : Passes s [] earlier p p
  | cons {node : Node} {nodes : List Node} {earlier : List Request} {p q r : Progress}
      (step : Step s earlier p node q)
      (rest : Passes s nodes (earlier ++ (node.request? s).toList) q r) :
      Passes s (node :: nodes) earlier p r

namespace Passes

variable {s : Setting} {nodes front back : List Node} {node : Node} {earlier : List Request}
  {p q : Progress}

theorem split (h : Passes s (front ++ back) earlier p q) :
    ∃ between, Passes s front earlier p between ∧
      Passes s back (earlier ++ front.filterMap (Node.request? s)) between q := by
  induction front generalizing earlier p with
  | nil => exact ⟨p, .nil earlier p, by simpa using h⟩
  | cons node front ih =>
    cases h with
    | cons step rest =>
      obtain ⟨between, hfront, hback⟩ := ih rest
      rw [Node.append_requests] at hback
      exact ⟨between, .cons step hfront, hback⟩

theorem logs (h : Passes s nodes earlier p q) :
    q.logs = p.logs ++ nodes.map (Node.logEntry s.eventId) := by
  induction h with
  | nil earlier p => exact (List.append_nil _).symm
  | cons step rest ih => rw [ih, step.logs, List.append_assoc, List.map_cons, List.singleton_append]

/-- Each node of the list has passed, after the requests of those before it. -/
theorem step_of_mem (h : Passes s nodes earlier p q) (hnode : node ∈ nodes) :
    ∃ before p' q', Step s before p' node q' := by
  obtain ⟨front, back, rfl⟩ := List.append_of_mem hnode
  obtain ⟨between, _, hback⟩ := h.split
  cases hback with
  | cons step rest => exact ⟨_, _, _, step⟩

/-- The prompts among nodes that pass are the nodes that made a request. -/
theorem filter_isPrompt (h : Passes s nodes earlier p q) :
    nodes.filter Node.isPrompt = nodes.filter fun node => (node.request? s).isSome := by
  refine List.filter_congr fun node hnode => ?_
  obtain ⟨before, p', q', step⟩ := h.step_of_mem hnode
  rw [Bool.eq_iff_iff]
  exact ⟨step.request, Node.isPrompt_of_request?⟩

end Passes

theorem runNode_eq_of_step {s : Setting} {node : Node} {earlier : List Request} {p q : Progress}
    (h : Step s earlier p node q) :
    runNode s node p earlier = ⟨earlier ++ (node.request? s).toList, .ok q⟩ := by
  rw [← runNode_requests s node p earlier, ← runNode_ok_iff.2 h]

/-- A run of nodes that pass makes the request of each. -/
theorem Passes.runNodes_eq {s : Setting} {nodes : List Node} {earlier : List Request} {p q : Progress}
    (h : Passes s nodes earlier p q) :
    runNodes s nodes p earlier = ⟨earlier ++ nodes.filterMap (Node.request? s), .ok q⟩ := by
  induction h with
  | nil earlier p => rw [runNodes, List.filterMap_nil, List.append_nil]
  | cons step rest ih =>
    rw [runNodes, runNode_eq_of_step step, ← Node.append_requests]
    exact ih

/-- A run passes all of its nodes, or those before one at which it stops.  The node at which it stops may
have made its request. -/
theorem runNodes_passes_or_stops (s : Setting) (nodes : List Node) (p : Progress)
    (earlier : List Request) :
    (∃ q, Passes s nodes earlier p q) ∨
      ∃ front node back q f, nodes = front ++ node :: back ∧ Passes s front earlier p q ∧
        (runNode s node q (earlier ++ front.filterMap (Node.request? s))).result = .error f ∧
        runNodes s nodes p earlier =
          ⟨earlier ++ (front ++ [node]).filterMap (Node.request? s),
            .error (f.withContext (some s.eventId) (some node.id))⟩ := by
  -- The progress and the requests so far differ from node to node, so both are carried along.
  induction nodes generalizing p earlier with
  | nil => exact .inl ⟨p, .nil earlier p⟩
  | cons node nodes ih =>
    have hrequests := runNode_requests s node p earlier
    rcases hrun : runNode s node p earlier with ⟨requests, f | q⟩
    · rw [hrun] at hrequests
      refine .inr ⟨[], node, nodes, p, f, rfl, .nil earlier p, ?_, ?_⟩
      · rw [List.filterMap_nil, List.append_nil, hrun]
      · rw [runNodes, hrun, List.nil_append, ← Node.append_requests, List.filterMap_nil, List.append_nil,
          ← hrequests]
    · have hstep : Step s earlier p node q := runNode_ok_iff.1 (by rw [hrun])
      rcases ih q (earlier ++ (node.request? s).toList) with
        ⟨r, hpasses⟩ | ⟨front, last, back, r, f, rfl, hpasses, hlast, hrest⟩
      · exact .inl ⟨r, .cons hstep hpasses⟩
      · rw [Node.append_requests] at hlast hrest
        refine .inr ⟨node :: front, last, back, r, f, rfl, .cons hstep hpasses, hlast, ?_⟩
        rw [runNodes, runNode_eq_of_step hstep]
        exact hrest

theorem passes_of_runNodes_ok {s : Setting} {nodes : List Node} {p q : Progress} {earlier : List Request}
    (h : (runNodes s nodes p earlier).result = .ok q) : Passes s nodes earlier p q := by
  rcases runNodes_passes_or_stops s nodes p earlier with ⟨r, hpasses⟩ | ⟨_, _, _, _, f, _, _, _, hstop⟩
  · rw [hpasses.runNodes_eq] at h
    cases h
    exact hpasses
  · rw [hstop] at h
    cases h

/-! ## Events -/

namespace ActionGraph

variable {g : ActionGraph}

theorem node?_isSome {id : String} (h : id ∈ g.nodeIds) :
    ∃ node ∈ g.nodes, g.node? id = some node ∧ node.id = id := by
  obtain ⟨declared, hdeclared, rfl⟩ := List.mem_map.1 h
  have hsome : (g.node? declared.id).isSome = true := by
    unfold node?
    rw [List.find?_isSome]
    exact ⟨declared, List.mem_reverse.2 hdeclared, by simp⟩
  obtain ⟨node, hnode⟩ := Option.isSome_iff_exists.1 hsome
  have hid := List.find?_some hnode
  exact ⟨node, List.mem_reverse.1 (List.mem_of_find?_eq_some hnode), hnode, by simpa using hid⟩

/-- Looking up declared ids finds a node for each. -/
theorem lookup_declared {ids : List String} (h : ∀ id ∈ ids, id ∈ g.nodeIds) :
    ∃ nodes, g.lookup ids = (nodes, none) ∧ (∀ node ∈ nodes, node ∈ g.nodes) ∧
      nodes.map Node.id = ids := by
  induction ids with
  | nil => exact ⟨[], rfl, by simp, rfl⟩
  | cons id ids ih =>
    obtain ⟨nodes, hlookup, hnodes, hids⟩ := ih fun other hother => h other (List.mem_cons_of_mem _ hother)
    obtain ⟨node, hnode, hfound, hid⟩ := node?_isSome (h id (List.mem_cons_self ..))
    refine ⟨node :: nodes, ?_, ?_, ?_⟩
    · rw [lookup, hfound, hlookup]
    · intro other hother
      rcases List.mem_cons.1 hother with rfl | hother
      · exact hnode
      · exact hnodes other hother
    · rw [List.map_cons, hid, hids]

end ActionGraph

/-- **A graph without a cycle runs its nodes.**  It is ordered, the nodes of the order are found, and if
ids are distinct these are all nodes. -/
theorem runGraph_acyclic {g : ActionGraph}
    (h : (GraphOrder.compute g.nodeIds g.edges).isAcyclic = true) :
    ∃ nodes, nodes.map Node.id = (GraphOrder.compute g.nodeIds g.edges).order ∧
      (∀ node ∈ nodes, node ∈ g.nodes) ∧ (g.nodeIds.Nodup → ∀ node ∈ g.nodes, node ∈ nodes) ∧
      ∀ s earlier, runGraph s g earlier =
        { requests := (runNodes s nodes .start earlier).requests
          result := (runNodes s nodes .start earlier).result.map fun p => ⟨p.patch, p.logs⟩ } := by
  have hsort : topologicalSort? g.nodeIds g.edges =
      some (GraphOrder.compute g.nodeIds g.edges).order := by
    unfold topologicalSort?
    exact if_pos h
  obtain ⟨nodes, hlookup, hnodes, hids⟩ := ActionGraph.lookup_declared (g := g) fun id hid =>
    GraphOrder.order_declared hid
  refine ⟨nodes, hids, hnodes, fun hnodup node hnode => ?_, fun s earlier => ?_⟩
  · have hid : node.id ∈ nodes.map Node.id := by
      rw [hids]
      exact GraphOrder.mem_order_of_isAcyclic h (List.mem_map_of_mem hnode)
    obtain ⟨found, hfound, heq⟩ := List.mem_map.1 hid
    rw [← List.inj_on_of_nodup_map hnodup (hnodes found hfound) hnode heq]
    exact hfound
  · unfold runGraph
    rw [hsort]
    dsimp only
    rw [hlookup]
    rcases runNodes s nodes .start earlier with ⟨requests, f | p⟩ <;> rfl

/-- **Running an event is running an order of its nodes**, the one that ordering the graph gives, if ids
are distinct and no node leads back to itself. -/
theorem runEvent_orders {app : App} {s : Setting} {e : EventDefinition}
    (hfound : app.findEvent? s.eventId = some e) (hids : e.graph.nodeIds.Nodup)
    (hacyclic : ∀ v, ¬ e.graph.Reaches v v) :
    ∃ order, e.graph.Orders order ∧
      order.map Node.id = (GraphOrder.compute e.graph.nodeIds e.graph.edges).order ∧
      ∀ earlier, runEvent app s earlier =
        { requests := (runNodes s order .start earlier).requests
          result := (runNodes s order .start earlier).result.map fun p => ⟨p.patch, p.logs⟩ } := by
  obtain ⟨order, horder, hsub, hall, hrun⟩ := runGraph_acyclic (GraphOrder.isAcyclic_iff.2 hacyclic)
  refine ⟨order, ⟨?_, fun front node back heq u hstep => ?_⟩, horder, fun earlier => ?_⟩
  · have hnodup := GraphOrder.order_nodup e.graph.nodeIds e.graph.edges
    rw [← horder] at hnodup
    refine (List.perm_ext_iff_of_nodup hnodup.of_map hids.of_map).2 fun node => ?_
    exact ⟨hsub node, hall hids node⟩
  · have hsource := GraphOrder.order_sourcesFirst e.graph.nodeIds e.graph.edges (front.map Node.id)
      node.id (back.map Node.id) (by rw [← horder, heq, List.map_append, List.map_cons]) ⟨u, node.id⟩
      (GraphOrder.leads_iff_known.1 hstep) rfl
    exact hsource
  · unfold runEvent
    rw [hfound]
    exact hrun s earlier

/-- The form whose only event runs a graph. -/
def App.ofGraph (g : ActionGraph) : App :=
  { appId := "form"
    version := "1"
    components := []
    stateModel := []
    events := [⟨"send", ⟨"button", .onClick⟩, g⟩] }

theorem App.findEvent?_ofGraph (g : ActionGraph) :
    (App.ofGraph g).findEvent? "send" = some ⟨"send", ⟨"button", .onClick⟩, g⟩ := rfl

end FormFlow
