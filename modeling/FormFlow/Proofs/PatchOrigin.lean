import FormFlow.Proofs.CompiledRun
import FormFlow.Proofs.DistinctKeys
import FormFlow.Proofs.OutputProjection
import FormFlow.Proofs.Reordering
import FormFlow.Proofs.WellFormed

/-!
# Where the values of a patch come from

A patch is overwritten by one transform after another, from outputs that prompts have left in between.
`Traced` accounts for each of its entries: the last transform of the order that has the key as a target
wrote it, and the value is either the expression, verbatim, or a list of the one output that the
expression refers to.  That output is the answer to a prompt further to the front, projected to the shape
of that prompt, and a projection is projected to itself.

## Principal results

* `PromptSpec.answer_ok_iff` — an output, traced to the reply it was read from;
* `Passes.mem_patch_keys`, `Passes.get?_patch_of_not_target` — what a run of nodes does to a key;
* `Passes.traced` — the patch of a run of nodes;
* `patch_provenance` — the patch of an event of a release.
-/

namespace FormFlow

/-! ## Answers -/

/-- An output is the answer to a prompt: the provider that the policy names has replied to the request of
the prompt, and the text of the reply, read as strict JSON, was validated against the shape of the
prompt. -/
def PromptSpec.Answered (spec : PromptSpec) (s : Setting) (earlier : List Request) (output : Json) : Prop :=
  ∃ provider request reply payload,
    Prompt.requestFor s.registry spec.policy (s.values spec.declared) spec.template =
        .ok (provider, request) ∧
      provider earlier request = .ok reply ∧ Prompt.parseResponse reply.text = .ok payload ∧
      validateOutput spec.shape payload = .ok output

theorem Prompt.receive_ok_iff {shape : Table Json} {text : String} {output : Json} :
    receive shape text = .ok output ↔
      ∃ payload, parseResponse text = .ok payload ∧ validateOutput shape payload = .ok output := by
  unfold receive
  cases parseResponse text with
  | error cause => simp
  | ok payload =>
    have hcheck : checkOutput shape payload = .ok output ↔ validateOutput shape payload = .ok output := by
      unfold checkOutput
      split <;> simp_all
    simp [hcheck]

theorem PromptSpec.answer_ok_iff {spec : PromptSpec} {s : Setting} {earlier : List Request}
    {output : Json} : spec.answer s earlier = .ok output ↔ spec.Answered s earlier output := by
  unfold answer Answered Prompt.ask
  cases Prompt.requestFor s.registry spec.policy (s.values spec.declared) spec.template with
  | error cause => simp [Except.map]
  | ok asked =>
    obtain ⟨provider, request⟩ := asked
    dsimp only
    cases hreply : provider earlier request with
    | error message => simp [Except.map, hreply]
    | ok reply =>
      have hreceive : Prompt.receive spec.shape reply.text = .ok output ↔ _ := Prompt.receive_ok_iff
      cases hresult : Prompt.receive spec.shape reply.text with
      | error f => simp_all [Except.map]
      | ok v => simp_all [Except.map]

/-! ## The keys of a patch -/

theorem mapTargets_nodup {outputs : Table Json} {targets : Table String} {patch result : Table Json}
    (h : mapTargets outputs targets patch = .ok result) (hpatch : patch.keys.Nodup) :
    result.keys.Nodup := by
  induction targets generalizing patch with
  | nil =>
    cases h
    exact hpatch
  | cons target targets ih =>
    obtain ⟨key, text⟩ := target
    rw [mapTargets] at h
    split at h
    · exact ih h (Table.nodup_keys_put key _ hpatch)
    · cases h

section

variable {s : Setting} {earlier : List Request} {p q : Progress} {node : Node} {nodes : List Node}

theorem Step.mem_patch_keys (h : Step s earlier p node q) (key : String) :
    key ∈ q.patch.keys ↔ key ∈ p.patch.keys ∨ key ∈ node.targetKeys := by
  cases h with
  | transform mapped => exact mapTargets_keys mapped key
  | validate held => simp [Node.targetKeys]
  | prompt answered => simp [Node.targetKeys]

theorem Step.patch_nodup (h : Step s earlier p node q) (hp : p.patch.keys.Nodup) :
    q.patch.keys.Nodup := by
  cases h with
  | transform mapped => exact mapTargets_nodup mapped hp
  | validate held => exact hp
  | prompt answered => exact hp

/-- A node leaves a key alone that it has not as a target. -/
theorem Step.get?_patch_of_not_target (h : Step s earlier p node q) {key : String}
    (hkey : key ∉ node.targetKeys) : q.patch.get? key = p.patch.get? key := by
  rw [h.get?_patch]
  cases hwritten : node.written? p.outputs key with
  | none => rfl
  | some v => exact absurd (Node.mem_targetKeys hwritten) hkey

namespace Passes

/-- **The keys of a patch** are those that were there and the targets of the nodes. -/
theorem mem_patch_keys (h : Passes s nodes earlier p q) (key : String) :
    key ∈ q.patch.keys ↔ key ∈ p.patch.keys ∨ ∃ node ∈ nodes, key ∈ node.targetKeys := by
  induction h with
  | nil earlier p => simp
  | cons step rest ih =>
    rw [ih, step.mem_patch_keys, or_assoc, List.exists_mem_cons_iff]

theorem patch_nodup (h : Passes s nodes earlier p q) (hp : p.patch.keys.Nodup) :
    q.patch.keys.Nodup := by
  induction h with
  | nil earlier p => exact hp
  | cons step rest ih => exact ih (step.patch_nodup hp)

/-- Nodes leave a key alone that none of them has as a target. -/
theorem get?_patch_of_not_target (h : Passes s nodes earlier p q) {key : String}
    (hkey : ∀ node ∈ nodes, key ∉ node.targetKeys) : q.patch.get? key = p.patch.get? key := by
  induction h with
  | nil earlier p => rfl
  | cons step rest ih =>
    obtain ⟨hnode, hnodes⟩ := List.forall_mem_cons.1 hkey
    rw [ih hnodes, step.get?_patch_of_not_target hnode]

end Passes

end

/-! ## Origins -/

/-- Where the value of an expression comes from, over the nodes that have passed before. -/
inductive Origin (s : Setting) (earlier : List Request) (front : List Node) (text : String) :
    Json → Prop where
  /-- The expression is no reference, and stands for itself. -/
  | literal (verbatim : Expression.parse text = .literal text) : Origin s earlier front text (.str text)
  /-- The expression refers to a prompt that has passed; its answer is validated again unchanged. -/
  | output {id : String} {fore aft : List Node} {spec : PromptSpec} {output : Json}
      (refers : Expression.parse text = .reference id) (placed : front = fore ++ .prompt id spec :: aft)
      (answered : spec.Answered s (earlier ++ fore.filterMap (Node.request? s)) output)
      (again : validateOutput spec.shape output = .ok output) :
      Origin s earlier front text (.arr [output])

/-- Every entry of a patch is accounted for by an order of nodes. -/
structure Traced (s : Setting) (earlier : List Request) (order : List Node) (patch : Table Json) :
    Prop where
  nodup : patch.keys.Nodup
  keys : ∀ key, key ∈ patch.keys ↔ ∃ node ∈ order, key ∈ node.targetKeys
  /-- The last node that has the key as a target is a transform, and wrote the value. -/
  values : ∀ key v, patch.get? key = some v → ∃ front id targets back text,
    order = front ++ .transform id targets :: back ∧ (∀ node ∈ back, key ∉ node.targetKeys) ∧
      Table.get? targets key = some text ∧ Origin s earlier front text v

theorem Expression.parse_literal {text value : String} (h : parse text = .literal value) :
    value = text := by
  unfold parse at h
  split at h
  · cases h
  · cases h
    rfl

theorem expressionFor?_eq_get? {targets : Table String} (h : targets.keys.Nodup) (key : String) :
    expressionFor? targets key = Table.get? targets key := by
  cases htext : expressionFor? targets key with
  | some text => exact (Table.get?_of_mem h (mem_of_expressionFor? htext)).symm
  | none =>
    cases hget : Table.get? targets key with
    | none => rfl
    | some text =>
      unfold expressionFor? at htext
      rw [Option.map_eq_none_iff, List.find?_eq_none] at htext
      exact absurd (htext (key, text) (List.mem_reverse.2 (Table.mem_of_get? hget))) (by simp)

theorem exists_last {α : Type} {P : α → Prop} {as : List α} (h : ∃ a ∈ as, P a) :
    ∃ front a back, as = front ++ a :: back ∧ P a ∧ ∀ b ∈ back, ¬ P b := by
  induction as with
  | nil => simp at h
  | cons a as ih =>
    by_cases hrest : ∃ b ∈ as, P b
    · obtain ⟨front, b, back, rfl, hb, hback⟩ := ih hrest
      exact ⟨a :: front, b, back, rfl, hb, hback⟩
    · have ha : P a := (List.exists_mem_cons_iff ..).1 h |>.resolve_right hrest
      exact ⟨[], a, as, rfl, ha, fun b hb hP => hrest ⟨b, hb, hP⟩⟩

section

variable {s : Setting} {earlier : List Request} {p q : Progress} {front order : List Node}

/-- The value of an expression that a transform evaluates has an origin in the nodes before it. -/
theorem Passes.origin (h : Passes s front earlier .start p) (hnodup : (front.map Node.id).Nodup)
    (hdistinct : ∀ node ∈ front, node.DistinctKeys) {text : String} {v : Json}
    (hv : (Expression.parse text).evaluate p.outputs = .ok v) : Origin s earlier front text v := by
  cases hparse : Expression.parse text with
  | literal value =>
    rw [hparse, Expression.evaluate] at hv
    cases hv
    cases Expression.parse_literal hparse
    exact .literal hparse
  | reference id =>
    rw [hparse, Expression.evaluate] at hv
    cases houtput : p.outputs.get? id with
    | none =>
      rw [houtput] at hv
      cases hv
    | some output =>
      rw [houtput] at hv
      cases hv
      obtain ⟨fore, spec, aft, rfl, hanswer⟩ := (h.get?_outputs_iff hnodup).1 houtput
      have hanswered := PromptSpec.answer_ok_iff.1 hanswer
      have hvalid := hanswered
      obtain ⟨_, _, _, payload, _, _, _, hvalid⟩ := hvalid
      have hshape : (Json.obj spec.shape).Distinct := hdistinct (.prompt id spec) (by simp)
      exact .output hparse rfl hanswered (validateOutput_again hshape hvalid)

/-- **The patch of a run of nodes** is accounted for by the nodes. -/
theorem Passes.traced (h : Passes s order earlier .start q) (hnodup : (order.map Node.id).Nodup)
    (hdistinct : ∀ node ∈ order, node.DistinctKeys) : Traced s earlier order q.patch where
  nodup := h.patch_nodup List.nodup_nil
  keys key := by
    have hstart : key ∉ Progress.start.patch.keys := List.not_mem_nil
    exact (h.mem_patch_keys key).trans (or_iff_right hstart)
  values key v hv := by
    have hkey : ∃ node ∈ order, key ∈ node.targetKeys :=
      ((h.mem_patch_keys key).1 (Table.mem_keys_iff.2 ⟨v, hv⟩)).resolve_left List.not_mem_nil
    -- The nodes behind the last one that has the key as a target leave the value alone.
    obtain ⟨front, node, back, rfl, htarget, hback⟩ := exists_last hkey
    obtain ⟨between, hfront, hrest⟩ := h.split
    rw [List.map_append, List.nodup_append] at hnodup
    rw [List.forall_mem_append] at hdistinct
    cases hrest with
    | cons step rest =>
      rw [rest.get?_patch_of_not_target hback] at hv
      cases step with
      | @transform id targets patch mapped =>
        have htargets : targets.keys.Nodup := hdistinct.2 _ (List.mem_cons_self ..)
        obtain ⟨text, htext⟩ := Table.mem_keys_iff.1 htarget
        obtain ⟨w, hw⟩ := mapTargets_ok_iff.1 ⟨_, mapped⟩ _ (Table.mem_of_get? htext)
        have hwritten := mapTargets_get? mapped id key
        rw [Node.written?, expressionFor?_eq_get? htargets, htext, Option.bind_some, hw] at hwritten
        cases hwritten.symm.trans hv
        exact ⟨front, id, targets, back, text, rfl, hback, htext, hfront.origin hnodup.1 hdistinct.1 hw⟩
      | validate held => cases htarget
      | prompt answered => cases htarget

end

/-! ## Releases -/

theorem Node.distinctKeys_normalize {aliases : Table String} {node : Node} (h : node.DistinctKeys) :
    (node.normalize aliases).DistinctKeys := by
  cases node <;> exact h

theorem EventDefinition.transform_normalize {aliases : Table String} {e : EventDefinition} {id : String}
    {targets : Table String} (h : Node.transform id targets ∈ (e.normalize aliases).graph.nodes) :
    Node.transform id targets ∈ e.graph.nodes := by
  obtain ⟨node, hnode, heq⟩ := List.mem_map.1 h
  cases node with
  | transform id' targets' =>
    cases heq
    exact hnode
  | validate id' keys => cases heq
  | prompt id' spec => cases heq

/-- A run of an accepted application that succeeds has passed an order of the event's nodes. -/
theorem App.Accepted.passes_of_runEvent {app : App} (h : app.Accepted) {s : Setting}
    {earlier : List Request} {result : RunResult}
    (hrun : (runEvent app.normalize s earlier).result = .ok result) :
    ∃ e order p, app.findEvent? s.eventId = some e ∧
      (e.normalize (aliasTable app.components)).graph.Orders order ∧
      order.map Node.id = (GraphOrder.compute (e.normalize (aliasTable app.components)).graph.nodeIds
        (e.normalize (aliasTable app.components)).graph.edges).order ∧
      (order.map Node.id).Nodup ∧ Passes s order earlier .start p ∧ result = ⟨p.patch, p.logs⟩ := by
  have hfound := App.findEvent?_normalize app s.eventId
  cases he : app.findEvent? s.eventId with
  | none =>
    rw [he, Option.map_none] at hfound
    unfold runEvent at hrun
    rw [hfound] at hrun
    cases hrun
  | some e =>
    rw [he, Option.map_some] at hfound
    have hmem := (App.findEvent?_mem he).1
    have hids := h.nodeIds_nodup hmem
    have hacyclic := h.acyclic hmem
    rw [← ActionGraph.normalize_nodeIds (aliasTable app.components) e.graph] at hids hacyclic
    obtain ⟨order, horder, hcompute, heq⟩ :=
      runEvent_orders hfound hids (GraphOrder.isAcyclic_iff.1 hacyclic)
    rw [heq] at hrun
    cases hnodes : (runNodes s order .start earlier).result with
    | error f =>
      rw [hnodes] at hrun
      cases hrun
    | ok p =>
      rw [hnodes] at hrun
      cases hrun
      exact ⟨e, order, p, rfl, horder, hcompute, horder.nodup hids, passes_of_runNodes_ok hnodes, rfl⟩

/-- **Where a patch comes from**, for every compiled application, every event, state, registry of
providers and whatever was asked before.  If the run succeeds, the keys of the patch are the targets of
the event's transforms, all of them are keys of the state model, and the order in which the event ran
accounts for every entry.  The value that is compiled repeats no key in an object. -/
theorem patch_provenance {settings : Settings} {raw : Json} {c : Compilation} {r : Release}
    (hraw : raw.Distinct) (hc : compile settings raw = .ok c) (hr : c.release? = some r) {s : Setting}
    {earlier : List Request} {result : RunResult} (hrun : (runEvent r.app s earlier).result = .ok result) :
    ∃ e order, r.app.findEvent? s.eventId = some e ∧ e.graph.Orders order ∧
      order.map Node.id = (GraphOrder.compute e.graph.nodeIds e.graph.edges).order ∧
      (∀ key, key ∈ result.statePatch.keys ↔ ∃ node ∈ e.graph.nodes, key ∈ node.targetKeys) ∧
      (∀ key ∈ result.statePatch.keys, key ∈ r.app.stateModel.keys) ∧
      Traced s earlier order result.statePatch := by
  obtain ⟨app, hread, haccepted, happ⟩ := compile_release hc hr
  rw [happ] at hrun ⊢
  obtain ⟨e, order, p, he, horder, hcompute, hnodup, hpasses, rfl⟩ := haccepted.passes_of_runEvent hrun
  have hmem := (App.findEvent?_mem he).1
  have hdistinct : ∀ node ∈ order, node.DistinctKeys := by
    intro node hnode
    obtain ⟨first, hfirst, rfl⟩ := List.mem_map.1 (horder.perm.subset hnode)
    exact Node.distinctKeys_normalize (App.ofJson_distinctKeys hraw hread e hmem first hfirst)
  have htraced := hpasses.traced hnodup hdistinct
  have hkeys : ∀ key, key ∈ p.patch.keys ↔
      ∃ node ∈ (e.normalize (aliasTable app.components)).graph.nodes, key ∈ node.targetKeys := by
    intro key
    rw [htraced.keys]
    exact exists_congr fun node => and_congr_left' horder.perm.mem_iff
  refine ⟨_, order, ?_, horder, hcompute, hkeys, fun key hkey => ?_, htraced⟩
  · rw [App.findEvent?_normalize, he, Option.map_some]
  · obtain ⟨node, hnode, htarget⟩ := (hkeys key).1 hkey
    cases node with
    | transform id targets =>
      have hadmits := (accepted_iff_wellFormed.1 haccepted).transforms e hmem id targets
        (EventDefinition.transform_normalize hnode)
      obtain ⟨entry, hentry, rfl⟩ := List.mem_map.1 htarget
      exact hadmits.targetKeys entry hentry
    | validate id keys => cases htarget
    | prompt id spec => cases htarget

/-- A form in which a draft stands for a reply until a provider has given one. -/
def replyForm : App :=
  { promptForm [.textArea ⟨"input", "Notes", "notes", ⟨none, none⟩⟩] ["notes", "reply"] "" [] with
    events := [⟨"send", ⟨"input", .onChange⟩,
      { nodes := [.transform "draft" [("reply", "We are looking into it.")],
          .prompt "ask" ⟨"Reply to {{Notes}}", ["Notes"], ⟨.mock, "m", none⟩, replyShape⟩,
          .transform "write" [("reply", "[$ask.output]")]]
        edges := [⟨"draft", "ask"⟩, ⟨"ask", "write"⟩] }⟩] }

/-- A provider that says more than it is asked for. -/
def talkative : Setting :=
  ⟨"send", [("notes", .str "Late.")],
    [("mock", Provider.fixed (.obj [("labels", .arr []), ("mood", .ofInt 7), ("reply", .str "Sorry.")]))]⟩

/-- The reply takes the place of the draft, without what the shape does not name. -/
theorem patch_provenance_reply :
    ∃ c r result, replyForm.toJson.Distinct ∧ compile Settings.default replyForm.toJson = .ok c ∧
      c.release? = some r ∧ (runEvent r.app talkative []).result = .ok result ∧
      result.statePatch = [("reply", .arr [.obj [("reply", .str "Sorry."), ("labels", .arr [])]])] ∧
      ∃ order, order.map Node.id = ["draft", "ask", "write"] ∧
        Traced talkative [] order result.statePatch := by
  have hdistinct : replyForm.toJson.Distinct := by decide +kernel
  have hread : App.ofJson replyForm.toJson = .ok replyForm := by decide +kernel
  obtain ⟨c, r, hc, hr, hnormal⟩ := exists_release hread (by decide +kernel)
  have hrun : ((runEvent r.app talkative []).result.toOption.map RunResult.statePatch) =
      some [("reply", .arr [.obj [("reply", .str "Sorry."), ("labels", .arr [])]])] := by
    rw [hnormal]
    decide +kernel
  cases hok : (runEvent r.app talkative []).result with
  | error f =>
    rw [hok] at hrun
    cases hrun
  | ok result =>
    rw [hok] at hrun
    obtain ⟨e, order, hfound, _, hcompute, _, _, htraced⟩ := patch_provenance hdistinct hc hr hok
    refine ⟨c, r, result, hdistinct, hc, hr, hok, Option.some.inj hrun, order, ?_, htraced⟩
    rw [hnormal] at hfound
    cases hfound
    rw [hcompute]
    decide +kernel

end FormFlow
