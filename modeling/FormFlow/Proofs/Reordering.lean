import FormFlow.Proofs.RunPatch

/-!
# Declaring an event in another order

The nodes of a graph can run in several orders.  In a settled graph every reference waits for its prompt,
and transforms that write to one key wait for each other.  If the providers answer by the request alone,
each node then passes or fails the same in every order, leaves the same output, and every key has the
same last writer.

## Principal results

* `exists_passes_iff` — an order passes exactly when each of its nodes is sound by itself;
* `get?_outputs_eq`, `get?_patch_eq` — two orders leave the same outputs and the same patch;
* `runEvent_reordered` — an event declared in another order runs to the same result.
-/

namespace FormFlow

/-! ## Providers without a memory -/

/-- The providers answer by the request alone. -/
def Registry.Memoryless (registry : Registry) : Prop :=
  ∀ name provider, Table.get? registry name = some provider →
    ∀ earlier later request, provider earlier request = provider later request

theorem PromptSpec.answer_memoryless {s : Setting} (h : s.registry.Memoryless) (spec : PromptSpec)
    (earlier : List Request) : spec.answer s earlier = spec.answer s [] := by
  unfold answer Prompt.ask
  cases hrequest : Prompt.requestFor s.registry spec.policy (s.values spec.declared) spec.template with
  | error cause => rfl
  | ok asked =>
    obtain ⟨provider, request⟩ := asked
    dsimp only
    rw [h _ provider (Prompt.requestFor_provider hrequest) earlier []]

/-- A node passes wherever it stands, as far as that is up to the node. -/
def Node.Sound (s : Setting) : Node → Prop
  | .validate _ keys => ∀ key ∈ keys, s.isVacant key = false
  | .prompt _ spec => ∃ output, spec.answer s [] = .ok output
  | .transform .. => True

theorem Step.sound {s : Setting} {earlier : List Request} {p q : Progress} {node : Node}
    (h : Step s earlier p node q) (hmemoryless : s.registry.Memoryless) : node.Sound s := by
  cases h with
  | validate held => exact held
  | prompt answered => exact ⟨_, (PromptSpec.answer_memoryless hmemoryless _ _).symm.trans answered⟩
  | transform mapped => trivial

/-! ## Settled graphs -/

/-- The keys that a node writes to. -/
def Node.targetKeys : Node → List String
  | .transform _ targets => targets.keys
  | _ => []

/-- A well-formed graph that leaves nothing to the order of its declaration: a transform refers to prompts
that lead to it, and of two nodes that write to one key, one leads to the other. -/
structure ActionGraph.Settled (g : ActionGraph) : Prop extends g.WellFormed where
  references : ∀ id targets, .transform id targets ∈ g.nodes → ∀ target ∈ targets, ∀ nodeId,
    Expression.parse target.2 = .reference nodeId →
      (∃ spec, .prompt nodeId spec ∈ g.nodes) ∧ g.Reaches nodeId id
  writers : ∀ a ∈ g.nodes, ∀ b ∈ g.nodes, a ≠ b → ∀ key ∈ a.targetKeys, key ∈ b.targetKeys →
    g.Reaches a.id b.id ∨ g.Reaches b.id a.id

theorem Node.mem_targetKeys {node : Node} {outputs : Table Json} {key : String} {v : Json}
    (h : node.written? outputs key = some v) : key ∈ node.targetKeys := by
  cases node with
  | transform id targets =>
    obtain ⟨text, htext, _⟩ := Option.bind_eq_some_iff.1 h
    exact List.mem_map_of_mem (mem_of_expressionFor? htext)
  | _ => cases h

section

variable {s : Setting} {g : ActionGraph} {order front back : List Node} {node : Node}
  {earlier later : List Request} {p q : Progress}

theorem ActionGraph.Settled.reaches_irrefl (h : g.Settled) (v : String) : ¬ g.Reaches v v := by
  have hacyclic := h.acyclic v
  rw [← ActionGraph.leads_iff_edge h.edges] at hacyclic
  exact hacyclic

/-- The outputs of an order that passed are the answers to the prompts of the graph. -/
theorem Passes.get?_outputs_iff_mem (h : Passes s order earlier .start p) (horder : g.Orders order)
    (hids : g.nodeIds.Nodup) (hmemoryless : s.registry.Memoryless) {id : String} {v : Json} :
    p.outputs.get? id = some v ↔ ∃ spec, .prompt id spec ∈ g.nodes ∧ spec.answer s [] = .ok v := by
  rw [h.get?_outputs_iff (horder.nodup hids)]
  constructor
  · rintro ⟨front, spec, back, heq, hanswer⟩
    rw [PromptSpec.answer_memoryless hmemoryless] at hanswer
    refine ⟨spec, horder.perm.subset ?_, hanswer⟩
    rw [heq]
    simp
  · rintro ⟨spec, hspec, hanswer⟩
    obtain ⟨front, back, heq⟩ := List.append_of_mem (horder.perm.symm.subset hspec)
    exact ⟨front, spec, back, heq, (PromptSpec.answer_memoryless hmemoryless _ _).trans hanswer⟩

/-! ## Orders that pass -/

/-- A sound node passes once the nodes before it have passed. -/
theorem exists_step (hg : g.Settled) (hmemoryless : s.registry.Memoryless) (horder : g.Orders order)
    (heq : order = front ++ node :: back) (hfront : Passes s front earlier .start p)
    (hsound : node.Sound s) :
    ∃ q, Step s (earlier ++ front.filterMap (Node.request? s)) p node q := by
  cases node with
  | validate id keys => exact ⟨_, .validate hsound⟩
  | prompt id spec =>
    obtain ⟨output, hanswer⟩ := hsound
    exact ⟨_, .prompt ((PromptSpec.answer_memoryless hmemoryless _ _).trans hanswer)⟩
  | transform id targets =>
    have hnode : .transform id targets ∈ g.nodes := horder.perm.subset (by rw [heq]; simp)
    have hnodup := horder.nodup hg.nodeIds
    suffices hall : ∀ target ∈ targets, ∃ v, (Expression.parse target.2).evaluate p.outputs = .ok v by
      obtain ⟨patch, hmapped⟩ := mapTargets_ok_iff.2 hall
      exact ⟨_, .transform hmapped⟩
    intro target htarget
    cases hparse : Expression.parse target.2 with
    | literal text => exact ⟨.str text, rfl⟩
    | reference nodeId =>
      -- The prompt that is referred to leads to this node, so it is one of those that have passed.
      obtain ⟨⟨spec, hspec⟩, hpath⟩ := hg.references id targets hnode target htarget nodeId hparse
      obtain ⟨prompt, hprompt, hname⟩ := List.mem_map.1 (horder.reachesFirst heq hpath)
      have hmem : prompt ∈ g.nodes := horder.perm.subset (by rw [heq]; exact List.mem_append_left _ hprompt)
      have hsame : prompt = .prompt nodeId spec :=
        List.inj_on_of_nodup_map hg.nodeIds hmem hspec hname
      rw [hsame] at hprompt
      obtain ⟨fore, aft, rfl⟩ := List.append_of_mem hprompt
      rw [heq, List.map_append, List.nodup_append, List.map_append, List.nodup_append, List.map_cons,
        List.nodup_cons] at hnodup
      obtain ⟨output, _, hget⟩ := hfront.get?_outputs_of_prompt hnodup.1.2.1.1
      exact ⟨.arr [output], by rw [Expression.evaluate, hget]⟩

/-- One node more has passed. -/
theorem Passes.concat (h : Passes s front earlier p q) {r : Progress}
    (hstep : Step s (earlier ++ front.filterMap (Node.request? s)) q node r) :
    Passes s (front ++ [node]) earlier p r := by
  induction h with
  | nil earlier p => exact .cons (by simpa using hstep) (.nil _ _)
  | cons step rest ih =>
    refine .cons step (ih ?_)
    rw [Node.append_requests]
    exact hstep

/-- **An order passes exactly when each node of the graph is sound by itself.** -/
theorem exists_passes_iff (hg : g.Settled) (hmemoryless : s.registry.Memoryless)
    (horder : g.Orders order) :
    (∃ p, Passes s order earlier .start p) ↔ ∀ node ∈ g.nodes, node.Sound s := by
  constructor
  · rintro ⟨p, h⟩ node hnode
    obtain ⟨before, p', q', step⟩ := h.step_of_mem (horder.perm.symm.subset hnode)
    exact step.sound hmemoryless
  · intro hsound
    suffices hrest : ∀ back front p, order = front ++ back → Passes s front earlier .start p →
        ∃ q, Passes s order earlier .start q from hrest order [] .start rfl (.nil _ _)
    intro back
    induction back with
    | nil =>
      intro front p heq hfront
      rw [List.append_nil] at heq
      exact ⟨p, heq ▸ hfront⟩
    | cons node back ih =>
      intro front p heq hfront
      have hnode : node ∈ g.nodes := horder.perm.subset (by rw [heq]; simp)
      obtain ⟨q, hstep⟩ := exists_step hg hmemoryless horder heq hfront (hsound node hnode)
      exact ih (front ++ [node]) q (by rw [heq]; simp) (hfront.concat hstep)

/-! ## Two orders -/

variable {other : List Node}

theorem get?_outputs_eq (hids : g.nodeIds.Nodup) (hmemoryless : s.registry.Memoryless)
    (horder : g.Orders order) (hother : g.Orders other) (h : Passes s order earlier .start p)
    (h' : Passes s other later .start q) (id : String) : p.outputs.get? id = q.outputs.get? id := by
  refine Option.ext fun v => ?_
  rw [h.get?_outputs_iff_mem horder hids hmemoryless, h'.get?_outputs_iff_mem hother hids hmemoryless]

theorem filterMap_filter_isSome {α β : Type} (f : α → Option β) (as : List α) :
    (as.filter fun a => (f a).isSome).filterMap f = as.filterMap f := by
  rw [List.filterMap_filter]
  refine List.filterMap_congr fun a _ => ?_
  cases f a <;> rfl

/-- **Two orders leave the same patch**, as the nodes that write to a key stand in both alike. -/
theorem get?_patch_eq (hg : g.Settled) (hmemoryless : s.registry.Memoryless) (horder : g.Orders order)
    (hother : g.Orders other) (h : Passes s order earlier .start p)
    (h' : Passes s other later .start q) (key : String) : p.patch.get? key = q.patch.get? key := by
  have houtputs := get?_outputs_eq hg.nodeIds hmemoryless horder hother h h'
  have hwritten : ∀ node : Node, node.written? q.outputs key = node.written? p.outputs key :=
    fun node => (node.written?_congr houtputs key).symm
  have hwriters : order.filter (fun node => (node.written? p.outputs key).isSome) =
      other.filter fun node => (node.written? p.outputs key).isSome := by
    refine horder.filter_eq hother hg.nodeIds fun a ha b hb hkind hlast hne => ?_
    obtain ⟨v, hv⟩ := Option.isSome_iff_exists.1 hkind
    obtain ⟨w, hw⟩ := Option.isSome_iff_exists.1 hlast
    exact hg.writers a ha b hb hne key (Node.mem_targetKeys hv) (Node.mem_targetKeys hw)
  rw [h.get?_patch (.start (horder.nodup hg.nodeIds)), h'.get?_patch (.start (hother.nodup hg.nodeIds)),
    funext hwritten, ← filterMap_filter_isSome, hwriters, filterMap_filter_isSome]

theorem ActionGraph.leads_eq_of_perm {h : ActionGraph} (hnodes : g.nodes.Perm h.nodes)
    (hedges : g.edges.Perm h.edges) :
    GraphOrder.Leads h.nodeIds h.edges = GraphOrder.Leads g.nodeIds g.edges := by
  have hids : ∀ {v}, v ∈ g.nodeIds ↔ v ∈ h.nodeIds := (hnodes.map Node.id).mem_iff
  funext u v
  unfold GraphOrder.Leads
  rw [hedges.mem_iff, hids, hids]

/-- An order of a graph orders the graph that is declared in another order. -/
theorem ActionGraph.Orders.of_perm {h : ActionGraph} (horder : h.Orders order)
    (hnodes : g.nodes.Perm h.nodes) (hedges : g.edges.Perm h.edges) : g.Orders order where
  perm := horder.perm.trans hnodes.symm
  sourcesFirst := ActionGraph.leads_eq_of_perm hnodes hedges ▸ horder.sourcesFirst

end

/-- **Declaring an event in another order**, for every settled graph, every state and all providers that
answer by the request alone.  Both runs succeed, with the same value under every key and the same requests
up to their order, or both fail. -/
theorem runEvent_reordered {app other : App} {s : Setting} {e moved : EventDefinition}
    (hfound : app.findEvent? s.eventId = some e) (hmoved : other.findEvent? s.eventId = some moved)
    (hnodes : e.graph.nodes.Perm moved.graph.nodes) (hedges : e.graph.edges.Perm moved.graph.edges)
    (hsettled : e.graph.Settled) (hmemoryless : s.registry.Memoryless) (earlier : List Request) :
    (∃ r t, (runEvent app s earlier).result = .ok r ∧ (runEvent other s earlier).result = .ok t ∧
        (∀ key, r.statePatch.get? key = t.statePatch.get? key) ∧
        (runEvent app s earlier).requests.Perm (runEvent other s earlier).requests) ∨
      (∃ f, (runEvent app s earlier).result = .error f) ∧
        ∃ f, (runEvent other s earlier).result = .error f := by
  have hids : moved.graph.nodeIds.Nodup := (hnodes.map Node.id).nodup_iff.1 hsettled.nodeIds
  have hacyclic : ∀ v, ¬ moved.graph.Reaches v v := by
    unfold ActionGraph.Reaches
    rw [ActionGraph.leads_eq_of_perm hnodes hedges]
    exact hsettled.reaches_irrefl
  obtain ⟨order, horder, _, hrun⟩ := runEvent_orders hfound hsettled.nodeIds hsettled.reaches_irrefl
  obtain ⟨second, hsecond, _, hrun'⟩ := runEvent_orders hmoved hids hacyclic
  have hsecond := hsecond.of_perm hnodes hedges
  rw [hrun, hrun']
  have hpasses : (∃ p, Passes s order earlier .start p) ↔ ∃ q, Passes s second earlier .start q :=
    (exists_passes_iff hsettled hmemoryless horder).trans
      (exists_passes_iff hsettled hmemoryless hsecond).symm
  rcases runNodes_passes_or_stops s order .start earlier with
    ⟨p, hp⟩ | ⟨_, _, _, _, f, _, _, _, hstop⟩
  · obtain ⟨q, hq⟩ := hpasses.1 ⟨p, hp⟩
    rw [hp.runNodes_eq, hq.runNodes_eq]
    refine .inl ⟨_, _, rfl, rfl, get?_patch_eq hsettled hmemoryless horder hsecond hp hq, ?_⟩
    exact ((horder.perm.trans hsecond.perm.symm).filterMap _).append_left earlier
  · rcases runNodes_passes_or_stops s second .start earlier with
      ⟨q, hq⟩ | ⟨_, _, _, _, f', _, _, _, hstop'⟩
    · obtain ⟨p, hp⟩ := hpasses.2 ⟨q, hq⟩
      rw [hp.runNodes_eq] at hstop
      cases congrArg Asked.result hstop
    · rw [hstop, hstop']
      exact .inr ⟨⟨_, rfl⟩, ⟨_, rfl⟩⟩

/-- Two prompts that do not wait for each other, and two transforms that write to one key. -/
def letterGraph : ActionGraph :=
  { nodes := [.prompt "ask" ⟨"Draft", [], ⟨.mock, "m", none⟩, [("text", .obj [])]⟩,
      .prompt "review" ⟨"Review", [], ⟨.openai, "m", none⟩, [("text", .obj [])]⟩,
      .transform "draft" [("letter", "[$ask.output]")],
      .transform "final" [("letter", "[$review.output]")]]
    edges := [⟨"ask", "draft"⟩, ⟨"review", "final"⟩, ⟨"draft", "final"⟩] }

theorem letterGraph_settled : letterGraph.Settled where
  nodeIds := by decide
  edges := by decide
  acyclic := by
    rw [← ActionGraph.leads_iff_edge (by decide)]
    exact GraphOrder.isAcyclic_iff.1 (by decide +kernel)
  references id targets hnode target htarget nodeId hparse := by
    simp only [letterGraph, List.mem_cons, reduceCtorEq, false_or, List.not_mem_nil, or_false,
      Node.transform.injEq] at hnode
    rcases hnode with ⟨rfl, rfl⟩ | ⟨rfl, rfl⟩
    · rw [List.mem_singleton.1 htarget] at hparse
      have hask : Expression.parse "[$ask.output]" = .reference "ask" := by decide +kernel
      cases hask.symm.trans hparse
      exact ⟨⟨_, List.mem_cons_self ..⟩, .single ⟨by decide, by decide, by decide⟩⟩
    · rw [List.mem_singleton.1 htarget] at hparse
      have hreview : Expression.parse "[$review.output]" = .reference "review" := by decide +kernel
      cases hreview.symm.trans hparse
      exact ⟨⟨_, List.mem_cons_of_mem _ (List.mem_cons_self ..)⟩,
        .single ⟨by decide, by decide, by decide⟩⟩
  writers a ha b hb hne key hkey hkey' := by
    have hpath : letterGraph.Reaches "draft" "final" := .single ⟨by decide, by decide, by decide⟩
    have hwriter : ∀ node ∈ letterGraph.nodes, key ∈ node.targetKeys →
        node = .transform "draft" [("letter", "[$ask.output]")] ∨
          node = .transform "final" [("letter", "[$review.output]")] := by
      intro node hnode hkey
      simp only [letterGraph, List.mem_cons, List.not_mem_nil, or_false] at hnode
      rcases hnode with rfl | rfl | hnode
      · cases hkey
      · cases hkey
      · exact hnode
    rcases hwriter a ha hkey with rfl | rfl
    · rcases hwriter b hb hkey' with rfl | rfl
      · exact absurd rfl hne
      · exact .inl hpath
    · rcases hwriter b hb hkey' with rfl | rfl
      · exact .inr hpath
      · exact absurd rfl hne

/-- No state, and two providers that always answer alike. -/
def twoVoices : Setting :=
  ⟨"send", [], [("mock", Provider.fixed (.obj [("text", .str "draft")])),
    ("openai", Provider.fixed (.obj [("text", .str "final")]))]⟩

theorem twoVoices_memoryless : twoVoices.registry.Memoryless := by
  intro name provider h earlier later request
  have hmem := Table.mem_of_get? h
  simp only [twoVoices, List.mem_cons, List.not_mem_nil, or_false, Prod.mk.injEq] at hmem
  rcases hmem with ⟨_, rfl⟩ | ⟨_, rfl⟩
  · exact Provider.fixed_const _ _ _ _ _
  · exact Provider.fixed_const _ _ _ _ _

/-- Declared the other way around, the prompts change places and the letter stays the same. -/
theorem runEvent_reordered_letter :
    letterGraph.Settled ∧ twoVoices.registry.Memoryless ∧
      ∃ r t, (runEvent (App.ofGraph letterGraph) twoVoices []).result = .ok r ∧
        (runEvent (App.ofGraph ⟨letterGraph.nodes.reverse, letterGraph.edges.reverse⟩) twoVoices
          []).result = .ok t ∧
        (∀ key, r.statePatch.get? key = t.statePatch.get? key) ∧
        (runEvent (App.ofGraph letterGraph) twoVoices []).requests.Perm
          (runEvent (App.ofGraph ⟨letterGraph.nodes.reverse, letterGraph.edges.reverse⟩) twoVoices
            []).requests := by
  refine ⟨letterGraph_settled, twoVoices_memoryless, ?_⟩
  have hreversed := runEvent_reordered (s := twoVoices) (App.findEvent?_ofGraph letterGraph)
    (App.findEvent?_ofGraph ⟨letterGraph.nodes.reverse, letterGraph.edges.reverse⟩)
    (List.reverse_perm _).symm (List.reverse_perm _).symm letterGraph_settled twoVoices_memoryless []
  refine hreversed.resolve_right fun hfails => ?_
  obtain ⟨⟨f, hf⟩, _⟩ := hfails
  have hok : (runEvent (App.ofGraph letterGraph) twoVoices []).result.toOption.isSome = true := by
    decide +kernel
  rw [hf] at hok
  cases hok

end FormFlow
