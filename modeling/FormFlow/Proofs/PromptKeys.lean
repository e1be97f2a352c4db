import FormFlow.App.Normalization
import FormFlow.App.Writing
import FormFlow.Proofs.Acceptance
import FormFlow.Proofs.RunFaults

/-!
# The names in a prompt

A prompt names the state by tokens of its template and by the variables that it declares.  In normal
form each name gives way to the state key that it stands for, and a run reads the state under that key.
A text area can claim a name that is itself a state key, of a table or of nothing on the page; then the
name stands for the key of the text area.

## Principal results

* `mem_keys_rekey` — a token that stands for itself stays a token;
* `prompt_name_resolution` — which names of an accepted prompt are kept, and what the others read.
-/

namespace FormFlow

theorem Template.mem_keys_rekey {resolve : String → String} {template name : String}
    (hname : name ∈ keys template) (hself : resolve name = name) :
    name ∈ keys (rekey resolve template) := by
  have hplain := plain_of_mem_keys hname
  rw [keys_eq_lookups, List.mem_filter] at hname ⊢
  refine ⟨?_, hname.2⟩
  rw [lookups_rekey, List.mem_flatMap]
  exact ⟨name, hname.1, by rw [hself, lookups_braced hplain]; exact List.mem_singleton.2 rfl⟩

/-! ## Names that are state keys -/

/-- The state key that a name stands for in an application. -/
def App.keyFor (app : App) (name : String) : String := resolve (aliasTable app.components) name

/-- **Which names a prompt keeps.**  A token or variable of a prompt of an accepted application stands
for itself exactly when it is the state key of a text area, or when no text area claims it or its loose
spelling.  Any other name, be it a state key or not, stands for the state key of a text area that claims
it, and that key belongs to the state model.  Either way the run has the value of the key that the name
stands for, and a token that stands for itself is a token of the normal form. -/
theorem prompt_name_resolution {raw : Json} {app : App} (happ : (validate raw).accepted? = some app)
    {e : EventDefinition} (he : e ∈ app.events) {id : String} {spec : PromptSpec}
    (hn : Node.prompt id spec ∈ e.graph.nodes) {name : String}
    (hname : name ∈ Template.keys spec.template ∨ name ∈ spec.declared) :
    (app.keyFor name = name ↔
        (∃ a ∈ app.textAreas, a.stateKey = name) ∨
          ∀ a ∈ app.textAreas, ¬ a.Claims name ∧ ¬ a.Claims (normalizeKey name)) ∧
      (app.keyFor name ≠ name →
        ∃ a ∈ app.textAreas, a.stateKey = app.keyFor name ∧
          app.stateModel.has a.stateKey = true ∧ (a.Claims name ∨ a.Claims (normalizeKey name))) ∧
      (∀ s : Setting,
        (s.values (spec.normalize (aliasTable app.components)).declared).get? (app.keyFor name) =
          some (s.valueOf (app.keyFor name))) ∧
      (app.keyFor name = name → name ∈ Template.keys spec.template →
        name ∈ Template.keys (spec.normalize (aliasTable app.components)).template) := by
  have haccepted := (accepted?_eq_some_iff.1 happ).2
  refine ⟨resolve_eq_self_iff, fun hne => ?_, fun s => ?_, fun hself htoken => ?_⟩
  · rcases resolve_aliasTable_cases app.components name with ⟨a, ha, hkey, hclaim⟩ | ⟨hself, _⟩
    · exact ⟨a, ha, hkey, haccepted.stateKey_has ha, hclaim⟩
    · exact absurd hself hne
  · -- A token is among the variables of the normal form because acceptance had it declared.
    have hdeclared : app.keyFor name ∈ spec.declared.map (resolve (aliasTable app.components)) := by
      rcases hname with htoken | hvariable
      · exact ((haccepted.prompt he hn).1 name htoken).2
      · exact List.mem_map_of_mem hvariable
    exact Setting.get?_values hdeclared
  · exact Template.mem_keys_rekey htoken hself

/-- A form with one event, whose only node asks the offline provider. -/
def promptForm (components : List Component) (stateKeys : List String) (template : String)
    (declared : List String) : App where
  appId := "form"
  version := "1"
  components := components
  stateModel := stateKeys.map fun key => (key, .primitive ⟨.string, none, none, none, none⟩)
  events :=
    [⟨"send", ⟨"input", .onChange⟩,
      ⟨[.prompt "ask" ⟨template, declared, ⟨.mock, "m", none⟩, []⟩], []⟩⟩]

/-- A text area whose label is also the state key of a table. -/
def labelledForm : App :=
  promptForm [.textArea ⟨"input", "total", "note", ⟨none, none⟩⟩, .dataTable ⟨"sums", "Sums", "total"⟩]
    ["note", "total"] "{{total}}" ["total"]

theorem labelledForm_accepted : (validate labelledForm.toJson).accepted? = some labelledForm := by
  decide +kernel

theorem labelledForm_keyFor : labelledForm.keyFor "total" = "note" := by
  decide +kernel

/-- The label wins, although a table shows the state key of the same name. -/
theorem labelledForm_resolution :
    (validate labelledForm.toJson).accepted? = some labelledForm ∧
      labelledForm.keyFor "total" = "note" ∧
        ∃ a ∈ labelledForm.textAreas, a.stateKey = "note" ∧
          labelledForm.stateModel.has a.stateKey = true ∧
            (a.Claims "total" ∨ a.Claims (normalizeKey "total")) := by
  obtain ⟨_, hredirected, _, _⟩ :=
    prompt_name_resolution (e := labelledForm.events.head (by decide)) labelledForm_accepted
      (List.head_mem _) (List.mem_singleton.2 rfl) (.inr (List.mem_singleton.2 rfl))
  rw [labelledForm_keyFor] at hredirected
  exact ⟨labelledForm_accepted, labelledForm_keyFor, hredirected (by decide)⟩

/-- Not every state key that a prompt names stands for itself. -/
theorem stateKey_redirected :
    ¬ ∀ (raw : Json) (app : App), (validate raw).accepted? = some app →
      ∀ e ∈ app.events, ∀ id spec, Node.prompt id spec ∈ e.graph.nodes →
        ∀ name, name ∈ Template.keys spec.template ∨ name ∈ spec.declared →
          app.stateModel.has name = true → app.keyFor name = name := by
  intro h
  have hself := h _ _ labelledForm_accepted _ (List.mem_singleton.2 rfl) "ask" _
    (List.mem_singleton.2 rfl) "total" (.inr (List.mem_singleton.2 rfl)) (by decide)
  rw [labelledForm_keyFor] at hself
  exact absurd hself (by decide)

end FormFlow
