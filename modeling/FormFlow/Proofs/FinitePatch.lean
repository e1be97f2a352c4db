import FormFlow.Proofs.FiniteAnswers
import FormFlow.Proofs.PatchOrigin
import FormFlow.Proofs.RunClosure

/-!
# Numbers that no text can hold

The reader of answers refuses the names of the infinities, but a literal that is too large becomes one.  `Exceeds`
says that an answer writes a number in this way.  Checking an output adds no number, and a transform puts outputs
into the patch as they are, so that a number of a patch that is not finite was written so in an answer.  Any other
value of a patch can be written as strict JSON.

## Principal results

* `exceeds_iff` — the numbers of an answer that are not finite are those written by literals that are too large;
* `Rule.numbers_project` — a projection has no number that was not there before;
* `Step.allOutputs`, `Passes.allOutputs`, `textOrOutput_of_runEvent` — a property of all outputs, through a node, a
  run of nodes and an event;
* `exists_read_received_iff` — which outputs can be written as strict JSON;
* `patch_numbers` — which numbers of an answer are not finite, and which values of a patch can be written.
-/

namespace FormFlow

/-! ## Answers -/

namespace Prompt

open Json Grammar

/-- A text writes a number by a literal that is too large, and that counts. -/
def Exceeds (text : String) (n : Number) : Prop :=
  ∃ d, Spells text.toList d ∧ d.Short ∧ ∃ l ∈ d.kept, l.Overflows ∧ l.number = n

theorem isFinite_of_exceeds {text : String} {n : Number} (h : Exceeds text n) : n.isFinite = false := by
  obtain ⟨d, _, _, l, _, hover, rfl⟩ := h
  exact Bool.eq_false_iff.2 fun hfinite => Literal.isFinite_number_iff.1 hfinite hover

theorem exists_reading {text : String} {v : Json} (h : parseResponse text = .ok v) :
    ∃ r, parseText text = .ok r ∧ r.toJson = v :=
  exists_of_map_ok h

/-- **The numbers of an answer that are not finite** are those written by literals that are too large. -/
theorem exceeds_iff {text : String} {v : Json} (h : parseResponse text = .ok v) {n : Number} :
    Exceeds text n ↔ n ∈ v.numbers ∧ n.isFinite = false := by
  obtain ⟨r, hr, rfl⟩ := exists_reading h
  rw [r.numbers_toJson]
  constructor
  · intro hexceeds
    refine ⟨?_, isFinite_of_exceeds hexceeds⟩
    obtain ⟨d, hspells, hshort, l, hl, _, rfl⟩ := hexceeds
    have hd := parseText_ok_iff.2 ⟨d, hspells, hshort, rfl⟩
    obtain rfl : d.value = r := Except.ok.inj (hd.symm.trans hr)
    exact (Document.mem_numbers_value _ d).2 ⟨l, hl, rfl⟩
  · rintro ⟨hn, hfinite⟩
    obtain ⟨d, hspells, hshort, rfl⟩ := parseText_ok_iff.1 hr
    obtain ⟨l, hl, rfl⟩ := (Document.mem_numbers_value n d).1 hn
    refine ⟨d, hspells, hshort, l, hl, Decidable.not_not.1 fun hnot => ?_, rfl⟩
    rw [Literal.isFinite_number_iff.2 hnot] at hfinite
    cases hfinite

/-- A literal that is too large writes an infinity. -/
theorem infinite_of_exceeds {text : String} {n : Number} (h : Exceeds text n) :
    ∃ x negative, n = .float x ∧ Decimal.Parts.ofFloat x = .infinite negative := by
  obtain ⟨d, _, _, l, _, hover, rfl⟩ := h
  obtain ⟨x, hx, hparts⟩ := Literal.number_of_overflows hover
  exact ⟨x, l.negative, hx, hparts⟩

theorem writable_of_parseResponse {text : String} {v : Json} (h : parseResponse text = .ok v) : v.Writable := by
  obtain ⟨r, hr, rfl⟩ := exists_reading h
  obtain ⟨d, _, hshort, rfl⟩ := parseText_ok_iff.1 hr
  exact Document.writable_value hshort

end Prompt

/-! ## Outputs -/

/-- A projection has no number that was not there before. -/
theorem Rule.numbers_project (rule : Json) :
    ∀ v, ∀ n ∈ (project rule v).numbers, n ∈ v.numbers := by
  induction rule using demand_induct with
  | step rule hobject hlist =>
    intro v n hn
    rw [project_eq] at hn
    cases hdemand : demand rule with
    | object rules =>
      rw [hdemand] at hn
      cases v with
      | obj members =>
        obtain ⟨m, hm, hn⟩ := Json.mem_numbers_obj.1 hn
        obtain ⟨e, he, hsome⟩ := List.mem_filterMap.1 hm
        obtain ⟨w, hw, rfl⟩ := Option.map_eq_some_iff.1 hsome
        exact Json.mem_numbers_obj.2 ⟨(e.1, w), Table.mem_of_get? hw, hobject rules hdemand e he w n hn⟩
      | _ => exact hn
    | list item =>
      rw [hdemand] at hn
      cases v with
      | arr items =>
        obtain ⟨w, hw, hn⟩ := Json.mem_numbers_arr.1 hn
        obtain ⟨u, hu, rfl⟩ := List.mem_map.1 hw
        exact Json.mem_numbers_arr.2 ⟨u, hu, hlist item hdemand u n hn⟩
      | _ => exact hn
    | text members | number | boolean | anything =>
      rw [hdemand] at hn
      exact hn

/-- A validated output has no number that was not in the answer. -/
theorem numbers_of_validateOutput {shape : Table Json} {payload output : Json}
    (h : validateOutput shape payload = .ok output) : ∀ n ∈ output.numbers, n ∈ payload.numbers := by
  obtain ⟨_, rfl⟩ := (Rule.check_ofRule_iff _ payload output).1 (validateOutput_ok_iff.1 h).2
  exact Rule.numbers_project _ payload

/-! ## Runs -/

/-- A value of a patch: a text, or a list of one output with a property. -/
def TextOrOutput (P : Json → Prop) (v : Json) : Prop :=
  (∃ text, v = .str text) ∨ ∃ output, v = .arr [output] ∧ P output

/-- All outputs of a run have a property, and all values of its patch are texts or such outputs. -/
structure Progress.AllOutputs (P : Json → Prop) (p : Progress) : Prop where
  outputs : ∀ e ∈ p.outputs, P e.2
  patch : ∀ e ∈ p.patch, TextOrOutput P e.2

theorem Progress.allOutputs_start (P : Json → Prop) : Progress.start.AllOutputs P :=
  ⟨List.forall_mem_nil _, List.forall_mem_nil _⟩

/-- The value of an expression is a text or one of the outputs. -/
theorem Expression.textOrOutput {P : Json → Prop} {outputs : Table Json} (houtputs : ∀ e ∈ outputs, P e.2)
    {expression : Expression} {v : Json} (h : expression.evaluate outputs = .ok v) : TextOrOutput P v := by
  cases expression with
  | literal value =>
    cases h
    exact .inl ⟨value, rfl⟩
  | reference id =>
    rw [evaluate] at h
    cases houtput : outputs.get? id with
    | none =>
      rw [houtput] at h
      cases h
    | some output =>
      rw [houtput] at h
      cases h
      exact .inr ⟨output, rfl, houtputs _ (Table.mem_of_get? houtput)⟩

theorem textOrOutput_of_mapTargets {P : Json → Prop} {outputs : Table Json} (houtputs : ∀ e ∈ outputs, P e.2)
    {targets : Table String} {patch result : Table Json} (h : mapTargets outputs targets patch = .ok result)
    (hpatch : ∀ e ∈ patch, TextOrOutput P e.2) : ∀ e ∈ result, TextOrOutput P e.2 := by
  induction targets generalizing patch with
  | nil =>
    cases h
    exact hpatch
  | cons target targets ih =>
    obtain ⟨key, text⟩ := target
    rw [mapTargets] at h
    cases hvalue : (Expression.parse text).evaluate outputs with
    | error nodeId =>
      rw [hvalue] at h
      cases h
    | ok v =>
      rw [hvalue] at h
      refine ih h fun e he => ?_
      rcases Table.mem_of_mem_put he with he | rfl
      · exact hpatch e he
      · exact Expression.textOrOutput houtputs hvalue

section

variable {P : Json → Prop} {s : Setting} {earlier : List Request} {p q : Progress}

/-- A property of all outputs is kept by a node if the answer to its prompt has it. -/
theorem Step.allOutputs {node : Node} (h : Step s earlier p node q)
    (hanswers : ∀ id spec output, node = .prompt id spec → spec.answer s earlier = .ok output → P output)
    (hp : p.AllOutputs P) : q.AllOutputs P := by
  cases h with
  | validate held => exact ⟨hp.outputs, hp.patch⟩
  | prompt answered =>
    refine ⟨fun e he => ?_, hp.patch⟩
    rcases Table.mem_of_mem_put he with he | rfl
    · exact hp.outputs e he
    · exact hanswers _ _ _ rfl answered
  | transform mapped => exact ⟨hp.outputs, textOrOutput_of_mapTargets hp.outputs mapped hp.patch⟩

/-- **A property of all outputs is kept by a run of nodes** if the answers to its prompts have it, each after the
requests of the nodes before. -/
theorem Passes.allOutputs {nodes : List Node} (h : Passes s nodes earlier p q)
    (hanswers : ∀ front id spec back output, nodes = front ++ .prompt id spec :: back →
      spec.answer s (earlier ++ front.filterMap (Node.request? s)) = .ok output → P output)
    (hp : p.AllOutputs P) : q.AllOutputs P := by
  induction h with
  | nil earlier p => exact hp
  | @cons node nodes earlier p q r step rest ih =>
    have hq : q.AllOutputs P := step.allOutputs (fun id spec output hnode hanswer => by
      refine hanswers [] id spec nodes output (by rw [hnode, List.nil_append]) ?_
      rwa [List.filterMap_nil, List.append_nil]) hp
    refine ih (fun front id spec back output hnodes hanswer => ?_) hq
    rw [Node.append_requests] at hanswer
    exact hanswers (node :: front) id spec back output (by rw [hnodes, List.cons_append]) hanswer

/-- A run of an event that succeeds has passed nodes of the event. -/
theorem exists_passes_of_runEvent {app : App} {result : RunResult}
    (h : (runEvent app s earlier).result = .ok result) :
    ∃ e nodes p, app.findEvent? s.eventId = some e ∧ (∀ node ∈ nodes, node ∈ e.graph.nodes) ∧
      Passes s nodes earlier .start p ∧
      runEvent app s earlier = ⟨earlier ++ nodes.filterMap (Node.request? s), .ok ⟨p.patch, p.logs⟩⟩ := by
  cases hfound : app.findEvent? s.eventId with
  | none =>
    rw [runEvent_of_none hfound] at h
    cases h
  | some e =>
    rw [runEvent_of_some hfound] at h ⊢
    by_cases hacyclic : (GraphOrder.compute e.graph.nodeIds e.graph.edges).isAcyclic = true
    · obtain ⟨nodes, _, hnodes, _, hrun⟩ := runGraph_acyclic hacyclic
      rw [hrun] at h ⊢
      cases hresult : (runNodes s nodes .start earlier).result with
      | error f =>
        rw [hresult] at h
        cases h
      | ok p =>
        have hpasses := passes_of_runNodes_ok hresult
        exact ⟨e, nodes, p, rfl, hnodes, hpasses, by rw [hpasses.runNodes_eq, Except.map]⟩
    · have hnone : topologicalSort? e.graph.nodeIds e.graph.edges = none := if_neg hacyclic
      unfold runGraph at h
      rw [hnone] at h
      cases h

end

/-! ## Patches -/

/-- A text came back to a prompt: one of the requests that were made after the earlier ones was the prompt's, and
its provider replied with the text. -/
def PromptSpec.Heard (spec : PromptSpec) (s : Setting) (earlier made : List Request) (text : String) : Prop :=
  ∃ before provider request reply, earlier <+: before ∧ before ++ [request] <+: made ∧
    Prompt.requestFor s.registry spec.policy (s.values spec.declared) spec.template = .ok (provider, request) ∧
    provider before request = .ok reply ∧ reply.text = text

/-- The answer to a prompt in a list of nodes was read from a text that came back to it. -/
theorem PromptSpec.heard_of_answer {s : Setting} {earlier : List Request} {front : List Node} {spec : PromptSpec}
    {output : Json} (id : String) (back : List Node)
    (h : spec.answer s (earlier ++ front.filterMap (Node.request? s)) = .ok output) :
    ∃ text, spec.Heard s earlier (earlier ++ (front ++ .prompt id spec :: back).filterMap (Node.request? s)) text ∧
      Prompt.receive spec.shape text = .ok output := by
  obtain ⟨provider, request, reply, payload, hrequest, hreply, hparse, hvalid⟩ := answer_ok_iff.1 h
  refine ⟨reply.text, ⟨_, provider, request, reply, List.prefix_append _ _, ?_, hrequest, hreply, rfl⟩,
    Prompt.receive_ok_iff.2 ⟨payload, hparse, hvalid⟩⟩
  have hasks : (Node.prompt id spec).request? s = some request := by
    rw [Node.request?, hrequest]
    rfl
  rw [List.filterMap_append, List.filterMap_cons_some hasks]
  exact ⟨back.filterMap (Node.request? s), by simp⟩

/-- **What a patch holds**: texts of the event, and outputs read from what came back to its prompts. -/
theorem textOrOutput_of_runEvent {app : App} {s : Setting} {earlier : List Request} {result : RunResult}
    (h : (runEvent app s earlier).result = .ok result) :
    ∀ entry ∈ result.statePatch, TextOrOutput (fun output => ∃ e id spec text, app.findEvent? s.eventId = some e ∧
      .prompt id spec ∈ e.graph.nodes ∧ spec.Heard s earlier (runEvent app s earlier).requests text ∧
      Prompt.receive spec.shape text = .ok output) entry.2 := by
  obtain ⟨e, nodes, p, hfound, hnodes, hpasses, hrun⟩ := exists_passes_of_runEvent h
  rw [hrun] at h ⊢
  cases h
  refine (hpasses.allOutputs (fun front id spec back output hsplit hanswer => ?_) (Progress.allOutputs_start _)).patch
  obtain ⟨text, hheard, hreceive⟩ := PromptSpec.heard_of_answer id back hanswer
  rw [← hsplit] at hheard
  exact ⟨e, id, spec, text, hfound, hnodes _ (by simp [hsplit]), hheard, hreceive⟩

/-- A list of one output is written so that it can be read, unless the output has a number from a literal
that is too large. -/
theorem exists_read_received_iff {shape : Table Json} {text : String} {output : Json}
    (h : Prompt.receive shape text = .ok output) {style : Json.Style} (hstyle : style.Standard) :
    (∃ w, Json.read .strict (Json.write style 0 (.arr [output])) = .ok w) ↔
      ∀ n, Prompt.Exceeds text n → n ∉ output.numbers := by
  obtain ⟨payload, hparse, hvalid⟩ := Prompt.receive_ok_iff.1 h
  have hnumbers := numbers_of_validateOutput hvalid
  have hmem : ∀ n, n ∈ (Json.arr [output]).numbers ↔ n ∈ output.numbers := fun n => by
    simp [Json.mem_numbers_arr]
  have hwritable : (Json.arr [output]).Writable := fun n hn =>
    Prompt.writable_of_parseResponse hparse n (hnumbers n ((hmem n).1 hn))
  rw [Json.exists_read_iff hstyle hwritable]
  constructor
  · intro hfinite n hexceeds hn
    have hinfinite := Prompt.isFinite_of_exceeds hexceeds
    rw [hfinite n ((hmem n).2 hn)] at hinfinite
    cases hinfinite
  · intro hnone n hn
    have hn := (hmem n).1 hn
    cases hfinite : n.isFinite with
    | true => rfl
    | false => exact absurd hn (hnone n ((Prompt.exceeds_iff hparse).2 ⟨hnumbers n hn, hfinite⟩))

/-- **Which numbers are not finite, and which values of a patch can be written.**  A number of an answer that is
not finite was written by a literal that is too large, and is an infinity.  For every application, every event,
state, registry of providers and whatever was asked before, a run that succeeds puts texts into the patch, which
can be written as strict JSON, and outputs, which can be written unless they have such a number. -/
theorem patch_numbers (app : App) (s : Setting) (earlier : List Request) :
    (∀ text v, Prompt.parseResponse text = .ok v →
      ∀ n, n ∈ v.numbers ∧ n.isFinite = false ↔ Prompt.Exceeds text n) ∧
    (∀ text n, Prompt.Exceeds text n →
      ∃ x negative, n = .float x ∧ Decimal.Parts.ofFloat x = .infinite negative) ∧
    ∀ result, (runEvent app s earlier).result = .ok result →
      ∀ entry ∈ result.statePatch,
        (∃ text, entry.2 = .str text ∧
          ∀ style : Json.Style, style.Standard → ∃ w, Json.read .strict (Json.write style 0 entry.2) = .ok w) ∨
        ∃ e id spec text output, app.findEvent? s.eventId = some e ∧ .prompt id spec ∈ e.graph.nodes ∧
          spec.Heard s earlier (runEvent app s earlier).requests text ∧
          Prompt.receive spec.shape text = .ok output ∧ entry.2 = .arr [output] ∧
          ∀ style : Json.Style, style.Standard →
            ((∃ w, Json.read .strict (Json.write style 0 entry.2) = .ok w) ↔
              ∀ n, Prompt.Exceeds text n → n ∉ output.numbers) := by
  refine ⟨fun text v h n => (Prompt.exceeds_iff h).symm, fun text n h => Prompt.infinite_of_exceeds h, ?_⟩
  intro result hrun entry hentry
  rcases textOrOutput_of_runEvent hrun entry hentry with
    ⟨text, htext⟩ | ⟨output, houtput, e, id, spec, text, hfound, hnode, hheard, hreceive⟩
  · refine .inl ⟨text, htext, fun style hstyle => ?_⟩
    have hnumbers : ∀ n, n ∉ (Json.str text).numbers := fun n hn => nomatch hn
    rw [htext, Json.exists_read_iff hstyle (Json.writable_str text)]
    exact fun n hn => absurd hn (hnumbers n)
  · refine .inr ⟨e, id, spec, text, output, hfound, hnode, hheard, hreceive, houtput, fun style hstyle => ?_⟩
    rw [houtput]
    exact exists_read_received_iff hreceive hstyle

/-- A form that asks for a score. -/
def scoreForm : App :=
  { promptForm [.textArea ⟨"input", "Notes", "notes", ⟨none, none⟩⟩] ["notes", "score"] "" [] with
    events := [⟨"send", ⟨"input", .onChange⟩,
      { nodes := [.prompt "ask" ⟨"Rate {{Notes}}", ["Notes"], ⟨.mock, "m", none⟩,
            [("score", .obj [("type", .str "number")])]⟩,
          .transform "write" [("score", "[$ask.output]")]]
        edges := [⟨"ask", "write"⟩] }⟩] }

/-- Every answer is one text. -/
def saying (text : String) : Setting :=
  ⟨"send", [("notes", .str "Late.")], [("mock", Provider.scripted [text] true "")]⟩

theorem saying_answers (text : String) : (saying text).registry.Answers := by
  intro name provider hprovider earlier request
  have hmem := Table.mem_of_get? hprovider
  simp only [saying, List.mem_cons, List.not_mem_nil, or_false, Prod.mk.injEq] at hmem
  obtain ⟨_, rfl⟩ := hmem
  refine ⟨⟨text, [("model", .str request.model)]⟩, ?_⟩
  unfold Provider.scripted
  cases Provider.turn earlier request <;> rfl

theorem exists_ok_of_map {ε α β : Type} {e : Except ε α} {f : α → β} {b : β} (h : e.toOption.map f = some b) :
    ∃ a, e = .ok a ∧ f a = b := by
  cases e with
  | error _ => cases h
  | ok a => exact ⟨a, rfl, Option.some.inj h⟩

/-- Where a run of the form for a score leaves one that is checked, it does so as a release. -/
theorem exists_score (text : String) (accepts : Json → Bool)
    (h : ((runEvent scoreForm.normalize (saying text) []).result.toOption.map fun result =>
      (result.statePatch.get? "score").map accepts) = some (some true)) :
    ∃ c r result v, compile Settings.default scoreForm.toJson = .ok c ∧ c.release? = some r ∧
      (runEvent r.app (saying text) []).result = .ok result ∧ result.statePatch.get? "score" = some v ∧
      accepts v = true := by
  have hread : App.ofJson scoreForm.toJson = .ok scoreForm := by decide +kernel
  obtain ⟨c, r, hc, hr, hnormal⟩ := exists_release hread (by decide +kernel)
  rw [← hnormal] at h
  obtain ⟨result, hrun, hscore⟩ := exists_ok_of_map h
  obtain ⟨v, hv, haccepts⟩ := Option.map_eq_some_iff.1 hscore
  exact ⟨c, r, result, v, hc, hr, hrun, hv, haccepts⟩

/-- A score in an answer may be written with an exponent, and can be written back. -/
theorem patch_numbers_score :
    ∃ c r result v, compile Settings.default scoreForm.toJson = .ok c ∧ c.release? = some r ∧
      (runEvent r.app (saying "\x7b\"score\": 45e-1\x7d") []).result = .ok result ∧
      result.statePatch.get? "score" = some v ∧
      ∃ w, Json.read .strict (Json.write Json.inline 0 v) = .ok w := by
  obtain ⟨c, r, result, v, hc, hr, hrun, hv, hfinite⟩ :=
    exists_score "\x7b\"score\": 45e-1\x7d" (fun v => v.numbers.all Number.isFinite) (by decide +kernel)
  refine ⟨c, r, result, v, hc, hr, hrun, hv, ?_⟩
  obtain ⟨_, _, hpatches⟩ := patch_numbers r.app (saying "\x7b\"score\": 45e-1\x7d") []
  rcases hpatches _ hrun _ (Table.mem_of_get? hv) with
    ⟨_, _, hwrites⟩ | ⟨_, _, spec, text, output, _, _, _, hreceive, houtput, hwrites⟩
  · exact hwrites _ Json.inline_standard
  · refine (hwrites _ Json.inline_standard).2 fun n hexceeds hn => ?_
    have hinfinite := Prompt.isFinite_of_exceeds hexceeds
    have hn : n ∈ v.numbers := by
      rw [show v = .arr [output] from houtput]
      simpa [Json.mem_numbers_arr] using hn
    rw [List.all_eq_true.1 hfinite n hn] at hinfinite
    cases hinfinite

/-- A score that is too large is read as an infinity, gets into the patch, and cannot be written back. -/
theorem infinite_score_unwritable :
    (∃ v, Prompt.parseResponse "1e999" = .ok v ∧ ¬ v.Finite) ∧
      ∃ c r result v, compile Settings.default scoreForm.toJson = .ok c ∧ c.release? = some r ∧
        (∀ entry ∈ (saying "\x7b\"score\": 1e999\x7d").state, entry.2.Finite) ∧
        (saying "\x7b\"score\": 1e999\x7d").registry.Answers ∧
        (runEvent r.app (saying "\x7b\"score\": 1e999\x7d") []).result = .ok result ∧
        result.statePatch.get? "score" = some v ∧
        ¬ ∃ w, Json.read .strict (Json.write Json.inline 0 v) = .ok w := by
  constructor
  · have hparse : ((Prompt.parseResponse "1e999").toOption.map fun v => v.numbers.all Number.isFinite) =
        some false := by decide +kernel
    obtain ⟨v, hv, hinfinite⟩ := exists_ok_of_map hparse
    refine ⟨v, hv, fun hfinite => ?_⟩
    rw [List.all_eq_true.2 hfinite] at hinfinite
    cases hinfinite
  · obtain ⟨c, r, result, v, hc, hr, hrun, hv, hunread⟩ :=
      exists_score "\x7b\"score\": 1e999\x7d"
        (fun v => (Json.read .strict (Json.write Json.inline 0 v)).toOption.isNone) (by decide +kernel)
    refine ⟨c, r, result, v, hc, hr, ?_, saying_answers _, hrun, hv, fun ⟨w, hw⟩ => ?_⟩
    · intro entry hentry n hn
      cases List.mem_singleton.1 hentry
      cases hn
    · rw [hw] at hunread
      cases hunread

end FormFlow
