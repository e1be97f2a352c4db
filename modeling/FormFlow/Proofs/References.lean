import FormFlow.Proofs.RunClosure
import FormFlow.Proofs.RunPatch
import FormFlow.Proofs.WellFormed

/-!
# References to outputs

Validation asks of a reference only that its node is there.  A run asks for more: the node must be a prompt
that has already answered.  Prompts leave their outputs in the order of the graph, so the graph alone says
which references find an output.  If all do, no run ends for want of one; if one does not, no run of the
event succeeds, whatever the state holds and the providers answer.

## Principal results

* `mapTargets_ok_iff_refers` — a transform passes when every node that it refers to has an output;
* `runNode_unknownNode` — a node is unknown only to a transform that refers to what has no output;
* `Passes.suppliedAlong` — nodes that pass are supplied by those before them;
* `ActionGraph.supplied_iff` — the same, read off the graph;
* `compiled_run_references` — what the references of an event make of its runs.
-/

namespace FormFlow

/-! ## What a transform needs -/

/-- A transform refers to the output of a node. -/
def Refers (targets : Table String) (ref : String) : Prop :=
  ∃ entry ∈ targets, Expression.parse entry.2 = .reference ref

/-- Along an order of nodes, whatever a transform refers to is a prompt further to the front. -/
def SuppliedAlong (order : List Node) : Prop :=
  ∀ front id targets back, order = front ++ .transform id targets :: back →
    ∀ ref, Refers targets ref → ∃ spec, .prompt ref spec ∈ front

/-- Whatever a transform refers to is a prompt that the order of the graph puts before the transform. -/
def ActionGraph.Supplied (g : ActionGraph) : Prop :=
  ∀ id targets, .transform id targets ∈ g.nodes → ∀ ref, Refers targets ref →
    (∃ spec, .prompt ref spec ∈ g.nodes) ∧
      ∃ front back, (GraphOrder.compute g.nodeIds g.edges).order = front ++ id :: back ∧ ref ∈ front

theorem Expression.exists_value_iff {outputs : Table Json} {x : Expression} :
    (∃ v, x.evaluate outputs = .ok v) ↔ ∀ ref, x = .reference ref → ∃ v, outputs.get? ref = some v := by
  cases x with
  | literal text => simp [evaluate]
  | reference ref =>
    rw [evaluate]
    cases h : outputs.get? ref <;> simp [h]

/-- A transform passes when every node that it refers to has an output. -/
theorem mapTargets_ok_iff_refers {outputs : Table Json} {targets : Table String} {patch : Table Json} :
    (∃ result, mapTargets outputs targets patch = .ok result) ↔
      ∀ ref, Refers targets ref → ∃ v, outputs.get? ref = some v := by
  rw [mapTargets_ok_iff]
  simp only [Expression.exists_value_iff]
  constructor
  · rintro h ref ⟨entry, hentry, href⟩
    exact h entry hentry ref href
  · intro h entry hentry ref href
    exact h ref ⟨entry, hentry, href⟩

/-! ## Nodes -/

/-- A prompt fails for reasons of its own. -/
theorem PromptSpec.answer_ne_unknownNode {spec : PromptSpec} {s : Setting} {earlier : List Request}
    {f : EventError} (h : spec.answer s earlier = .error (.event f)) (message : String) :
    f.cause ≠ .unknownNode message := by
  cases hrequest : Prompt.requestFor s.registry spec.policy (s.values spec.declared) spec.template with
  | error failure =>
    rw [answer_of_error hrequest] at h
    cases h
    rcases Prompt.requestFor_error hrequest with ⟨fault, hfault, _⟩ | hfault
    · cases fault <;> cases hfault
      exact nofun
    · cases hfault
      exact nofun
  | ok asked =>
    obtain ⟨provider, request⟩ := asked
    cases hreply : provider earlier request with
    | error broken =>
      rw [answer_of_broken hrequest hreply] at h
      cases h
    | ok reply =>
      rw [answer_of_reply hrequest hreply] at h
      rcases Prompt.receive_error h with ⟨_, _, rfl⟩ | ⟨_, _, rfl⟩
      · exact nofun
      · exact nofun

section

variable {s : Setting} {node : Node} {order front : List Node} {p q : Progress} {earlier : List Request}
  {f : EventError} {message : String}

/-- A node is unknown only to a transform that refers to what has no output. -/
theorem runNode_unknownNode (h : (runNode s node p earlier).result = .error (.event f))
    (hcause : f.cause = .unknownNode message) :
    ∃ id targets ref, node = .transform id targets ∧ Refers targets ref ∧ p.outputs.get? ref = none := by
  cases node with
  | validate id keys =>
    rw [runNode] at h
    split at h
    · cases h
      cases hcause
    · cases h
  | prompt id spec =>
    rw [runNode_prompt] at h
    cases hanswer : spec.answer s earlier with
    | ok output =>
      rw [hanswer] at h
      cases h
    | error g =>
      rw [hanswer] at h
      cases h
      exact absurd hcause (PromptSpec.answer_ne_unknownNode hanswer message)
  | transform id targets =>
    have hfails : ¬ ∃ patch, mapTargets p.outputs targets p.patch = .ok patch := by
      rintro ⟨patch, hpatch⟩
      rw [runNode, hpatch] at h
      cases h
    rw [mapTargets_ok_iff_refers] at hfails
    push Not at hfails
    obtain ⟨ref, href, hnone⟩ := hfails
    exact ⟨id, targets, ref, rfl, href, Option.eq_none_iff_forall_ne_some.2 hnone⟩

/-! ## Runs -/

/-- The nodes with an output are the prompts that passed. -/
theorem Passes.exists_output_iff (h : Passes s order earlier .start q) (hnodup : (order.map Node.id).Nodup)
    {id : String} : (∃ v, q.outputs.get? id = some v) ↔ ∃ spec, .prompt id spec ∈ order := by
  constructor
  · rintro ⟨v, hv⟩
    rcases h.prompt_of_get?_outputs hv with hstart | hprompt
    · cases hstart
    · exact hprompt
  · rintro ⟨spec, hspec⟩
    obtain ⟨front, back, rfl⟩ := List.append_of_mem hspec
    rw [List.map_append, List.nodup_append, List.map_cons, List.nodup_cons] at hnodup
    obtain ⟨output, _, houtput⟩ := h.get?_outputs_of_prompt hnodup.2.1.1
    exact ⟨output, houtput⟩

/-- Nodes that pass are supplied by those before them. -/
theorem Passes.suppliedAlong (h : Passes s order earlier .start q) (hnodup : (order.map Node.id).Nodup) :
    SuppliedAlong order := by
  rintro front id targets back rfl ref href
  rw [List.map_append, List.nodup_append] at hnodup
  obtain ⟨between, hfront, hrest⟩ := h.split
  cases hrest with
  | cons step rest =>
    cases step with
    | transform mapped =>
      have hneeds := mapTargets_ok_iff_refers.1 ⟨_, mapped⟩
      exact (hfront.exists_output_iff hnodup.1).1 (hneeds ref href)

/-- Where every transform is supplied, no run ends at an unknown node. -/
theorem runNodes_ne_unknownNode (hsupplied : SuppliedAlong order) (hnodup : (order.map Node.id).Nodup)
    (h : (runNodes s order .start earlier).result = .error (.event f)) : f.cause ≠ .unknownNode message := by
  intro hcause
  rcases runNodes_passes_or_stops s order .start earlier with
    ⟨q, hpasses⟩ | ⟨front, node, back, q, g, rfl, hpasses, hnode, hstop⟩
  · rw [hpasses.runNodes_eq] at h
    cases h
  · rw [hstop] at h
    cases g with
    | provider broken => cases h
    | value error => cases h
    | badBound => cases h
    | event g =>
      cases h
      obtain ⟨id, targets, ref, rfl, href, hnone⟩ := runNode_unknownNode hnode hcause
      rw [List.map_append, List.nodup_append] at hnodup
      have hprompt := hsupplied front id targets back rfl ref href
      obtain ⟨v, hv⟩ := (hpasses.exists_output_iff hnodup.1).2 hprompt
      rw [hnone] at hv
      cases hv

end

/-! ## Graphs -/

/-- Along the order of a graph, its transforms are supplied exactly if the graph says so. -/
theorem ActionGraph.supplied_iff {g : ActionGraph} (hids : g.nodeIds.Nodup) {order : List Node}
    (horder : order.map Node.id = (GraphOrder.compute g.nodeIds g.edges).order)
    (hnodes : ∀ node, node ∈ order ↔ node ∈ g.nodes) : g.Supplied ↔ SuppliedAlong order := by
  have hnodup : (order.map Node.id).Nodup := by
    rw [horder]
    exact GraphOrder.order_nodup g.nodeIds g.edges
  constructor
  · rintro h front id targets back rfl ref href
    obtain ⟨⟨spec, hspec⟩, fore, aft, hsplit, href'⟩ :=
      h id targets ((hnodes _).1 (by simp)) ref href
    rw [← horder, List.map_append, List.map_cons] at hsplit
    rw [List.map_append, List.map_cons, List.nodup_middle, List.nodup_cons, List.mem_append,
      not_or] at hnodup
    -- The id stands at one place, so that the two fronts are one.
    obtain ⟨rfl, _, _⟩ := (List.append_cons_inj_of_notMem hnodup.1.1 hnodup.1.2).1 hsplit
    obtain ⟨node, hnode, hid⟩ := List.mem_map.1 href'
    have hmem : node ∈ g.nodes := (hnodes node).1 (List.mem_append_left _ hnode)
    have hsame : node = .prompt ref spec := List.inj_on_of_nodup_map hids hmem hspec hid
    exact ⟨spec, hsame ▸ hnode⟩
  · intro h id targets hnode ref href
    obtain ⟨front, back, rfl⟩ := List.append_of_mem ((hnodes _).2 hnode)
    obtain ⟨spec, hspec⟩ := h front id targets back rfl ref href
    refine ⟨⟨spec, (hnodes _).1 (List.mem_append_left _ hspec)⟩, front.map Node.id, back.map Node.id, ?_, ?_⟩
    · rw [← horder, List.map_append, List.map_cons]
      rfl
    · exact List.mem_map.2 ⟨_, hspec, rfl⟩

/-! ## Events -/

/-- An event of a well-formed application is found under its id. -/
theorem App.WellFormed.findEvent?_eq {app : App} (h : app.WellFormed) {e : EventDefinition}
    (he : e ∈ app.events) : app.findEvent? e.id = some e := by
  obtain ⟨found, hfound⟩ := App.exists_findEvent? he
  obtain ⟨hmem, hid⟩ := App.findEvent?_mem hfound
  rw [hfound, List.inj_on_of_nodup_map h.eventIds hmem he hid]

/-- **References are decided by the graph.**  If every transform of an event of a release refers to prompts
that come before it, no run of the event ends at an unknown node, for any state, any providers and whatever
was asked before.  Otherwise no run of the event succeeds. -/
theorem compiled_run_references {settings : Settings} {raw : Json} {c : Compilation} {r : Release}
    (hc : compile settings raw = .ok c) (hr : c.release? = some r) {e : EventDefinition}
    (he : e ∈ r.app.events) :
    (e.graph.Supplied → ∀ message, ¬ r.app.Raises e.id (.unknownNode message)) ∧
      (¬ e.graph.Supplied → ∀ state registry earlier result,
        (runEvent r.app ⟨e.id, state, registry⟩ earlier).result ≠ .ok result) := by
  obtain ⟨app, _, haccepted, happ⟩ := compile_release hc hr
  rw [happ] at he ⊢
  have hids := (haccepted.graph_normalize he).1
  obtain ⟨first, hfirst, rfl⟩ := List.mem_map.1 he
  have hfound := (accepted_iff_wellFormed.1 haccepted).findEvent?_eq hfirst
  obtain ⟨order, hnodes, horder, hrun⟩ := haccepted.runEvent_normalize hfound
  have hnodup : (order.map Node.id).Nodup := by
    rw [horder]
    exact GraphOrder.order_nodup _ _
  have hid : (first.normalize (aliasTable app.components)).id = first.id := rfl
  rw [ActionGraph.supplied_iff hids horder hnodes, hid]
  constructor
  · rintro hsupplied message ⟨state, registry, earlier, f, hresult, hcause⟩
    have hfails := (hrun state registry earlier).1 _ hresult
    exact runNodes_ne_unknownNode hsupplied hnodup hfails hcause
  · intro hunsupplied state registry earlier result hresult
    obtain ⟨p, hpasses, _⟩ := (hrun state registry earlier).2 result hresult
    exact hunsupplied (hpasses.suppliedAlong hnodup)

/-- A graph in which a reply refers to the output of a prompt. -/
def referringGraph (edges : List Edge) : ActionGraph :=
  { nodes := [.transform "write" [("reply", "[$ask.output]")],
      .prompt "ask" ⟨"Reply to {{notes}}", ["notes"], ⟨.mock, "m", none⟩, []⟩]
    edges := edges }

/-- A form with such a graph. -/
def referringForm (edges : List Edge) : App :=
  { promptForm [.textArea ⟨"input", "Notes", "notes", ⟨none, none⟩⟩] ["notes", "reply"] "" [] with
    events := [⟨"send", ⟨"input", .onChange⟩, referringGraph edges⟩] }

theorem parse_askOutput : Expression.parse "[$ask.output]" = .reference "ask" := by
  decide

/-- The edge brings the prompt to the front. -/
theorem referringGraph_supplied : (referringGraph [⟨"ask", "write"⟩]).Supplied := by
  rintro id targets hnode ref ⟨entry, hentry, href⟩
  have horder : (GraphOrder.compute (referringGraph [⟨"ask", "write"⟩]).nodeIds
      (referringGraph [⟨"ask", "write"⟩]).edges).order = ["ask"] ++ "write" :: [] := by decide +kernel
  rcases List.mem_cons.1 hnode with hnode | hnode
  · cases hnode
    cases List.mem_singleton.1 hentry
    cases parse_askOutput.symm.trans href
    exact ⟨⟨_, List.mem_cons_of_mem _ (List.mem_singleton.2 rfl)⟩, _, _, horder, List.mem_singleton.2 rfl⟩
  · cases List.mem_singleton.1 hnode

/-- Without the edge the transform stands first, where it was declared. -/
theorem referringGraph_unsupplied : ¬ (referringGraph []).Supplied := by
  intro h
  have horder : (GraphOrder.compute (referringGraph []).nodeIds (referringGraph []).edges).order =
      ["write", "ask"] := by decide +kernel
  obtain ⟨_, front, back, hsplit, hfront⟩ :=
    h "write" _ (List.mem_cons_self ..) "ask" ⟨_, List.mem_singleton.2 rfl, parse_askOutput⟩
  rw [horder] at hsplit
  cases front with
  | nil => cases hfront
  | cons first front =>
    have hmem : "write" ∈ ["ask"] := by
      rw [(List.cons.inj hsplit).2]
      exact List.mem_append_right _ (List.mem_cons_self ..)
    exact absurd hmem (by decide)

/-- Both forms compile, but only one of them can run. -/
theorem compiled_run_references_reply :
    (∃ c r, compile Settings.default (referringForm [⟨"ask", "write"⟩]).toJson = .ok c ∧
        c.release? = some r ∧ ∃ e ∈ r.app.events, e.graph.Supplied ∧
          ∀ message, ¬ r.app.Raises e.id (.unknownNode message)) ∧
      ∃ c r, compile Settings.default (referringForm []).toJson = .ok c ∧
        c.release? = some r ∧ ∃ e ∈ r.app.events, ¬ e.graph.Supplied ∧
          ∀ state registry earlier result,
            (runEvent r.app ⟨e.id, state, registry⟩ earlier).result ≠ .ok result := by
  constructor
  · have hread : App.ofJson (referringForm [⟨"ask", "write"⟩]).toJson =
        .ok (referringForm [⟨"ask", "write"⟩]) := by decide +kernel
    have hself : (referringForm [⟨"ask", "write"⟩]).normalize = referringForm [⟨"ask", "write"⟩] := by
      decide +kernel
    obtain ⟨c, r, hc, hr, hnormal⟩ := exists_release hread (by decide +kernel)
    have he : ⟨"send", ⟨"input", .onChange⟩, referringGraph [⟨"ask", "write"⟩]⟩ ∈ r.app.events := by
      rw [hnormal, hself]
      exact List.mem_singleton.2 rfl
    exact ⟨c, r, hc, hr, _, he, referringGraph_supplied,
      (compiled_run_references hc hr he).1 referringGraph_supplied⟩
  · have hread : App.ofJson (referringForm []).toJson = .ok (referringForm []) := by decide +kernel
    have hself : (referringForm []).normalize = referringForm [] := by decide +kernel
    obtain ⟨c, r, hc, hr, hnormal⟩ := exists_release hread (by decide +kernel)
    have he : ⟨"send", ⟨"input", .onChange⟩, referringGraph []⟩ ∈ r.app.events := by
      rw [hnormal, hself]
      exact List.mem_singleton.2 rfl
    exact ⟨c, r, hc, hr, _, he, referringGraph_unsupplied,
      (compiled_run_references hc hr he).2 referringGraph_unsupplied⟩

end FormFlow
