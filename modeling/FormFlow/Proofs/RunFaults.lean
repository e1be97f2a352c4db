import FormFlow.Proofs.RunSteps
import FormFlow.Proofs.TemplateScan

/-!
# The faults of a run

A run that fails ends with the fault of one of its nodes.  What can go wrong at a node depends on its kind,
and a variable is missing only where a template looks up a key that its prompt does not read.

## Principal results

* `Setting.get?_values`, `Setting.has_values` — what a prompt with given variables reads;
* `runNode_error` — what can go wrong at a node, and when a variable is missing;
* `runNode_missing` — a prompt that always fails, as it misses a variable;
* `runNodes_cause` — what a run can end with.
-/

namespace FormFlow

/-! ## What a prompt reads -/

namespace Setting

variable {s : Setting} {names : List String} {name : String}

theorem get?_values (h : name ∈ names) : (s.values names).get? name = some (s.valueOf name) := by
  unfold values
  induction names with
  | nil => cases h
  | cons other names ih =>
    rw [List.map_cons, Table.get?]
    by_cases heq : other = name
    · rw [if_pos heq, heq]
    · rw [if_neg heq]
      exact ih ((List.mem_cons.1 h).resolve_left (Ne.symm heq))

theorem has_values : (s.values names).has name = true ↔ name ∈ names := by
  rw [Table.has_iff_mem_keys]
  simp [Table.keys, values, Function.comp_def]

end Setting

/-! ## Faults at a node -/

/-- The causes that arise at a node. -/
inductive Cause.AtNode : Cause → Prop where
  | emptyState (key : String) : AtNode (.emptyState key)
  | missingVariable (name : String) : AtNode (.missingVariable name)
  | unknownProvider (name : String) : AtNode (.unknownProvider name)
  | badResponse (detail rawText : String) : AtNode (.badResponse detail rawText)
  | badOutput (detail : String) (found : List Schema.Issue) (payload : Json) :
      AtNode (.badOutput detail found payload)
  | noOutput (nodeId : String) : AtNode (.noOutput nodeId)

/-- The two faults about unknown nodes differ in their first word. -/
theorem Cause.absentNode_ne_noOutput (nodeId other : String) :
    Cause.absentNode nodeId ≠ .noOutput other := by
  intro h
  unfold absentNode noOutput at h
  injection h with htext
  have hfirst : "Node ".toList.head? = some 'N' := by decide
  have hsecond : "Transform references node ".toList.head? = some 'T' := by decide
  have hhead := congrArg (fun text => text.toList.head?) htext
  simp only [String.toList_append, List.append_assoc, List.head?_append, hfirst, hsecond,
    Option.some_or] at hhead
  exact absurd hhead (by decide)

theorem Cause.not_atNode_absentNode (nodeId : String) : ¬ AtNode (.absentNode nodeId) := by
  intro h
  generalize hcause : Cause.absentNode nodeId = cause at h
  cases h with
  | noOutput other => exact absentNode_ne_noOutput nodeId other hcause
  | _ => cases hcause

namespace Prompt

variable {registry : Registry} {policy : ModelPolicy} {values shape : Table Json}
  {template : String} {earlier : List Request}

theorem requestFor_error {f : Failure}
    (h : requestFor registry policy values template = .error f) :
    (∃ fault, f = unfilled fault ∧ Template.interpolate values template = .error fault) ∨
      f = .of (.unknownProvider policy.provider.text) := by
  unfold requestFor at h
  split at h
  · rename_i fault hfault
    cases h
    exact .inl ⟨fault, rfl, hfault⟩
  · split at h
    · cases h
      exact .inr rfl
    · cases h

theorem receive_error {text : String} {f : EventError} (h : receive shape text = .error (.event f)) :
    (∃ detail rawText, f = .of (.badResponse detail rawText)) ∨
      ∃ found payload, f = .of (.mismatch found payload) := by
  unfold receive at h
  split at h
  · rename_i cause hparse
    unfold parseResponse parseText at hparse
    split at hparse
    · cases hparse
    · cases hparse
      cases h
      exact .inl ⟨_, _, rfl⟩
  · rename_i payload hparse
    unfold checkOutput at h
    split at h
    · cases h
    · cases h
    · cases h
    · cases h
      exact .inr ⟨_, _, rfl⟩

/-- Asking fails as an event for a missing variable, an unknown provider or a bad answer, and does not
know where. -/
theorem ask_error {f : EventError}
    (h : (ask registry policy shape values template earlier).result = .error (.event f)) :
    f = .of f.cause ∧ f.cause.AtNode ∧
      ∀ name, f.cause = .missingVariable name →
        Template.interpolate values template = .error (.missing name) := by
  unfold ask at h
  split at h
  · rename_i failure hrequest
    cases h
    rcases requestFor_error hrequest with ⟨fault, hfault, hfilled⟩ | hfault
    · cases fault with
      | missing name =>
        cases hfault
        refine ⟨rfl, .missingVariable name, fun other heq => ?_⟩
        cases heq
        exact hfilled
      | value error => cases hfault
    · cases hfault
      exact ⟨rfl, .unknownProvider _, fun other heq => by cases heq⟩
  · rename_i provider request hrequest
    dsimp only at h
    split at h
    · cases h
    · rename_i reply hreply
      cases hreceive : receive shape reply.text with
      | ok output => rw [hreceive] at h; cases h
      | error failure =>
        rw [hreceive] at h
        cases h
        rcases receive_error hreceive with ⟨detail, rawText, rfl⟩ | ⟨found, payload, rfl⟩
        · exact ⟨rfl, .badResponse _ _, fun other h => by cases h⟩
        · exact ⟨rfl, .badOutput _ _ _, fun other h => by cases h⟩

/-- What a prompt was asked with was filled in. -/
theorem exists_interpolate_of_ask {r : PromptResult}
    (h : (ask registry policy shape values template earlier).result = .ok r) :
    ∃ text, Template.interpolate values template = .ok text := by
  unfold ask requestFor at h
  cases hfill : Template.interpolate values template with
  | ok text => exact ⟨text, rfl⟩
  | error fault =>
    rw [hfill] at h
    cases h

end Prompt

/-- **What can go wrong at a node.**  The fault does not know where it arose.  A variable is missing only
at a prompt whose template looks up a key that is no variable of the prompt. -/
theorem runNode_error {s : Setting} {node : Node} {p : Progress} {earlier : List Request}
    {f : EventError} (h : (runNode s node p earlier).result = .error (.event f)) :
    f = .of f.cause ∧ f.cause.AtNode ∧
      ∀ name, f.cause = .missingVariable name →
        ∃ id spec, node = .prompt id spec ∧
          name ∈ Template.lookups spec.template ∧ name ∉ spec.declared := by
  unfold runNode at h
  split at h
  · split at h
    · cases h
      exact ⟨rfl, .emptyState _, fun name heq => by cases heq⟩
    · cases h
  · rename_i id spec
    dsimp only at h
    cases hasked : (Prompt.ask s.registry spec.policy spec.shape (s.values spec.declared)
        spec.template earlier).result with
    | ok r => rw [hasked] at h; cases h
    | error failure =>
      rw [hasked] at h
      cases h
      obtain ⟨hbare, hcause, hmissing⟩ := Prompt.ask_error hasked
      refine ⟨hbare, hcause, fun name heq => ⟨id, spec, rfl, ?_⟩⟩
      obtain ⟨key, hkey, hfault⟩ := List.exists_of_findSome?_eq_some
        (Template.interpolate_error_iff.1 (hmissing name heq))
      obtain ⟨rfl, habsent⟩ := Template.fault?_eq_missing_iff.1 hfault
      refine ⟨hkey, fun hdeclared => ?_⟩
      rw [Setting.has_values.2 hdeclared] at habsent
      cases habsent
  · split at h
    · cases h
      exact ⟨rfl, .noOutput _, fun name heq => by cases heq⟩
    · cases h

/-- A prompt that looks up a key that is none of its variables fails, whatever the run has done before. -/
theorem runNode_missing {id : String} {spec : PromptSpec} {key : String}
    (hkey : key ∈ Template.lookups spec.template) (hdeclared : key ∉ spec.declared) (s : Setting)
    (p q : Progress) (earlier : List Request) : (runNode s (.prompt id spec) p earlier).result ≠ .ok q := by
  intro h
  unfold runNode at h
  dsimp only at h
  cases hasked : (Prompt.ask s.registry spec.policy spec.shape (s.values spec.declared) spec.template
      earlier).result with
  | error f =>
    rw [hasked] at h
    cases h
  | ok r =>
    obtain ⟨v, hv, _⟩ := Template.exists_interpolate_iff.1 (Prompt.exists_interpolate_of_ask hasked) key hkey
    exact hdeclared (Setting.has_values.1 (by rw [Table.has, hv]; rfl))

/-! ## Whole runs -/

theorem runNodes_cause {s : Setting} {nodes : List Node} {p : Progress} {earlier : List Request}
    {f : EventError} (h : (runNodes s nodes p earlier).result = .error (.event f)) :
    f.cause.AtNode ∧
      ∀ name, f.cause = .missingVariable name →
        ∃ id spec, .prompt id spec ∈ nodes ∧
          name ∈ Template.lookups spec.template ∧ name ∉ spec.declared := by
  rcases runNodes_passes_or_stops s nodes p earlier with
    ⟨q, hpasses⟩ | ⟨front, node, back, q, g, rfl, _, hg, hstop⟩
  · rw [hpasses.runNodes_eq] at h
    cases h
  · rw [hstop] at h
    cases g with
    | provider message => cases h
    | value error => cases h
    | badBound => cases h
    | event g =>
      cases h
      obtain ⟨_, hcause, hmissing⟩ := runNode_error hg
      refine ⟨hcause, fun name hname => ?_⟩
      obtain ⟨id, spec, rfl, hlookup⟩ := hmissing name hname
      exact ⟨id, spec, List.mem_append_right _ (List.mem_cons_self ..), hlookup⟩

end FormFlow
