import FormFlow.Proofs.WellFormed

/-!
# Whom a loose name reaches

A name in a prompt that is no state key reaches a text area because the area bears it, or because the
normalized spelling of the name is that of the area's label or state key.  A name of other signs than
the letters a to z and digits has the empty spelling, and so have many labels: it reaches whichever area
shares the empty spelling with it.  A name that reaches no text area is a finding.

## Principal results

* `TextArea.Claims.reaches` — a claim to a name or to its loose spelling, without a word about rounds;
* `App.WellFormed.eq_of_stateKey_eq` — a state key belongs to one text area;
* `App.WellFormed.exists_owner`, `App.keyFor_of_unreached` — the names that reach a text area, and the rest;
* `prompt_name_owner` — whom the names of an accepted prompt reach, and which names are findings;
* `emptySpelling_captured` — two names with the empty spelling need have nothing in common.
-/

namespace FormFlow

namespace TextArea

/-- A text area has a name as its label or its state key. -/
def Bears (a : TextArea) (name : String) : Prop := a.label = name ∨ a.stateKey = name

/-- The label or the state key of a text area has a normalized spelling. -/
def HasLooseName (a : TextArea) (loose : String) : Prop :=
  normalizeKey a.label = loose ∨ normalizeKey a.stateKey = loose

instance (a : TextArea) (name : String) : Decidable (a.Bears name) :=
  inferInstanceAs (Decidable (_ ∨ _))

instance (a : TextArea) (loose : String) : Decidable (a.HasLooseName loose) :=
  inferInstanceAs (Decidable (_ ∨ _))

/-- Whether a name is claimed as it is or in its loose spelling, the area bears it or has it as a loose name. -/
theorem Claims.reaches {a : TextArea} {name : String} (h : a.Claims name ∨ a.Claims (normalizeKey name)) :
    a.Bears name ∨ a.HasLooseName (normalizeKey name) := by
  rcases h with (hkey | hlabel | hkey | hlabel) | (hkey | hlabel | hkey | hlabel)
  · exact .inl (.inr hkey)
  · exact .inl (.inl hlabel)
  · exact .inr (.inr (by rw [← hkey, normalizeKey_idem]))
  · exact .inr (.inl (by rw [← hlabel, normalizeKey_idem]))
  · exact .inr (.inr (by rw [hkey, normalizeKey_idem]))
  · exact .inr (.inl (by rw [hlabel, normalizeKey_idem]))
  · exact .inr (.inr hkey)
  · exact .inr (.inl hlabel)

end TextArea

/-- A label that is no state key is in the table for a text area that has it. -/
theorem get?_aliasTable_label {components : List Component} {name : String}
    (hkey : ∀ a ∈ components.filterMap Component.textArea?, a.stateKey ≠ name)
    (hlabel : ∃ b ∈ components.filterMap Component.textArea?, b.label = name) :
    ∃ a ∈ components.filterMap Component.textArea?,
      a.label = name ∧ (aliasTable components).get? name = some a.stateKey := by
  have hnone : lastClaim TextArea.stateKey (areasById components) name = none :=
    lastClaim_eq_none_iff.2 hkey
  obtain ⟨b, hb, hname⟩ := hlabel
  cases h : lastClaim TextArea.label (areasById components) name with
  | none => exact absurd hname (lastClaim_eq_none_iff.1 h b hb)
  | some key =>
    obtain ⟨a, ha, hlabel, rfl⟩ := lastClaim_eq_some h
    refine ⟨a, ha, hlabel, ?_⟩
    rw [get?_aliasTable, hnone, h]
    rfl

/-! ## State keys and findings -/

/-- A state key belongs to one text area of a well-formed application. -/
theorem App.WellFormed.eq_of_stateKey_eq {app : App} (h : app.WellFormed) {a b : TextArea}
    (ha : a ∈ app.textAreas) (hb : b ∈ app.textAreas) (hkey : a.stateKey = b.stateKey) : a = b := by
  have hbound : ∀ {c : Component} {area : TextArea}, c.textArea? = some area →
      c.boundKey? = some area.stateKey := by
    intro c area hc
    cases c with
    | textArea t =>
      cases hc
      rfl
    | button _ => cases hc
    | dataTable _ => cases hc
  obtain ⟨c, hc, hca⟩ := List.mem_filterMap.1 ha
  obtain ⟨d, hd, hdb⟩ := List.mem_filterMap.1 hb
  have hcKey := hbound hca
  have hdKey : d.boundKey? = some a.stateKey := by rw [hbound hdb, hkey]
  have honce := nodup_filterMap_iff_earlier.1 h.boundOnce
  -- Of two components with the key one stands first, and then the other finds its key taken.
  obtain ⟨front, back, heq⟩ := List.append_of_mem hc
  have hsame : d = c := by
    rw [heq, List.mem_append, List.mem_cons] at hd
    rcases hd with hfront | rfl | hback
    · exact absurd hdKey (honce front c back heq _ hcKey d hfront)
    · rfl
    · obtain ⟨middle, rest, rfl⟩ := List.append_of_mem hback
      have hlater : app.components = (front ++ c :: middle) ++ d :: rest := by
        rw [heq, List.append_assoc, List.cons_append]
      exact absurd hcKey (honce _ d rest hlater _ hdKey c (by simp))
  rw [hsame, hca] at hdb
  exact Option.some.inj hdb

/-- What the check of a node finds is among the findings on the application. -/
theorem mem_checkApp_of_node {app : App} {e : EventDefinition} (he : e ∈ app.events) {n : Node}
    (hn : n ∈ e.graph.nodes) {d : Diagnostic} (hd : d ∈ checkNode app e n) : d ∈ checkApp app := by
  obtain ⟨front, back, heq⟩ := List.append_of_mem he
  have hnode : d ∈ e.graph.nodes.flatMap (checkNode app e) := List.mem_flatMap.2 ⟨n, hn, hd⟩
  have hevent : d ∈ checkEvent app ([] ++ front) e := List.mem_append_right _ hnode
  exact List.mem_append_right _ (mem_checkEach.2 ⟨front, e, back, heq, hevent⟩)

/-- A name of a prompt that stands for no state key is a finding. -/
theorem unknownName_mem_checkNode {app : App} {e : EventDefinition} {id : String} {spec : PromptSpec}
    {name : String} (hname : name ∈ Template.keys spec.template ∨ name ∈ spec.declared)
    (hunknown : app.stateModel.has (app.keyFor name) = false) :
    ∃ d ∈ checkNode app e (.prompt id spec),
      d = .unknownToken e.id id name ∨ d = .unknownVariable e.id id name := by
  have hkept : (!app.stateModel.has (resolve (aliasTable app.components) name)) = true := by
    rw [Bool.not_eq_true']
    exact hunknown
  unfold checkNode checkPrompt
  simp only [List.mem_append, List.mem_map, List.mem_filter]
  rcases hname with htoken | hvariable
  · exact ⟨_, .inl (.inl ⟨name, ⟨htoken, hkept⟩, rfl⟩), .inl rfl⟩
  · exact ⟨_, .inl (.inr ⟨name, ⟨hvariable, hkept⟩, rfl⟩), .inr rfl⟩

/-- An error among the findings refuses the application. -/
theorem validate_refused {raw : Json} {app : App} (hread : App.ofJson raw = .ok app) {d : Diagnostic}
    (hd : d ∈ checkApp app) (herror : d.isError = true) :
    (validate raw).ok = false ∧ d ∈ (validate raw).diagnostics := by
  constructor
  · rw [← Bool.not_eq_true]
    intro hok
    obtain ⟨read, hreadAgain, hclean⟩ := validate_ok_iff.1 hok
    cases hread.symm.trans hreadAgain
    have hharmless := hclean d hd
    rw [herror] at hharmless
    cases hharmless
  · rw [validate, hread]
    exact hd

/-! ## The names of a prompt -/

/-- A known name that is no state key reaches exactly one text area, and one with that label if there is
any. -/
theorem App.WellFormed.exists_owner {app : App} (h : app.WellFormed) {name : String}
    (hfree : app.stateModel.has name = false) (hknown : app.stateModel.has (app.keyFor name) = true) :
    ∃ a ∈ app.textAreas, (∀ b ∈ app.textAreas, b.stateKey = app.keyFor name ↔ b = a) ∧
      (a.Bears name ∨ a.HasLooseName (normalizeKey name)) ∧
      (a.Bears name ↔ ∃ b ∈ app.textAreas, b.label = name) := by
  have hnoKey : ∀ a ∈ app.textAreas, a.stateKey ≠ name := by
    rintro a ha rfl
    have hhas := (accepted_iff_wellFormed.2 h).stateKey_has ha
    rw [hfree] at hhas
    cases hhas
  rcases resolve_aliasTable_cases app.components name with ⟨a, ha, hkey, hclaim⟩ | ⟨hself, _⟩
  · have howner : ∀ b ∈ app.textAreas, b.stateKey = app.keyFor name ↔ b = a := by
      intro b hb
      constructor
      · intro hb'
        exact h.eq_of_stateKey_eq hb ha (hb'.trans hkey.symm)
      · rintro rfl
        exact hkey
    refine ⟨a, ha, howner, TextArea.Claims.reaches hclaim, ?_, ?_⟩
    · rintro (hlabel | hkey)
      · exact ⟨a, ha, hlabel⟩
      · exact absurd hkey (hnoKey a ha)
    · intro hlabel
      obtain ⟨b, hb, hbLabel, hentry⟩ := get?_aliasTable_label hnoKey hlabel
      have hsame := (howner b hb).1 (resolve_of_get? hentry).symm
      rw [← hsame]
      exact .inl hbLabel
  · rw [App.keyFor, hself, hfree] at hknown
    cases hknown

/-- A name that no text area bears, even as a loose name, stands for itself. -/
theorem App.keyFor_of_unreached {app : App} {name : String}
    (h : ∀ a ∈ app.textAreas, ¬ a.Bears name ∧ ¬ a.HasLooseName (normalizeKey name)) :
    app.keyFor name = name := by
  rcases resolve_aliasTable_cases app.components name with ⟨a, ha, _, hclaim⟩ | ⟨hself, _⟩
  · rcases TextArea.Claims.reaches hclaim with hbears | hloose
    · exact absurd hbears (h a ha).1
    · exact absurd hloose (h a ha).2
  · exact hself

/-- **Whom a name of a prompt reaches.**  Take a token or variable that is no state key.  If the
application is accepted, the name stands for the state key of exactly one text area, which bears it or
shares its normalized spelling; it bears the name whenever some text area has it as its label.  If no text
area bears the name or shares its spelling, the application is refused with a finding on the name. -/
theorem prompt_name_owner {raw : Json} {app : App} (hread : App.ofJson raw = .ok app)
    {e : EventDefinition} (he : e ∈ app.events) {id : String} {spec : PromptSpec}
    (hn : Node.prompt id spec ∈ e.graph.nodes) {name : String}
    (hname : name ∈ Template.keys spec.template ∨ name ∈ spec.declared)
    (hfree : app.stateModel.has name = false) :
    ((validate raw).ok = true →
        ∃ a ∈ app.textAreas, (∀ b ∈ app.textAreas, b.stateKey = app.keyFor name ↔ b = a) ∧
          (a.Bears name ∨ a.HasLooseName (normalizeKey name)) ∧
          (a.Bears name ↔ ∃ b ∈ app.textAreas, b.label = name)) ∧
      ((∀ a ∈ app.textAreas, ¬ a.Bears name ∧ ¬ a.HasLooseName (normalizeKey name)) →
        (validate raw).ok = false ∧ ∃ d ∈ (validate raw).diagnostics,
          d.code = "UNKNOWN_PROMPT_VARIABLE" ∧
            (d = .unknownToken e.id id name ∨ d = .unknownVariable e.id id name)) := by
  constructor
  · intro hok
    obtain ⟨read, hreadAgain, hformed⟩ := (validate_ok_exact raw).1 hok
    cases hread.symm.trans hreadAgain
    have hprompt := (accepted_iff_wellFormed.2 hformed).prompt he hn
    apply hformed.exists_owner hfree
    rcases hname with htoken | hvariable
    · exact (hprompt.1 name htoken).1
    · exact hprompt.2 name hvariable
  · intro hnobody
    have hunknown : app.stateModel.has (app.keyFor name) = false := by
      rw [App.keyFor_of_unreached hnobody, hfree]
    obtain ⟨d, hd, hcase⟩ : ∃ d ∈ checkNode app e (.prompt id spec),
        d = .unknownToken e.id id name ∨ d = .unknownVariable e.id id name :=
      unknownName_mem_checkNode hname hunknown
    have hmem := mem_checkApp_of_node he hn hd
    rcases hcase with rfl | rfl
    · obtain ⟨hrefused, hfound⟩ := validate_refused hread hmem rfl
      exact ⟨hrefused, _, hfound, rfl, .inl rfl⟩
    · obtain ⟨hrefused, hfound⟩ := validate_refused hread hmem rfl
      exact ⟨hrefused, _, hfound, rfl, .inr rfl⟩

/-- A form whose prompt spells a label loosely. -/
def looseForm : App :=
  promptForm [.textArea ⟨"input", "Late Fee", "fee", ⟨none, none⟩⟩] ["fee"] "{{late_fee}}" ["late_fee"]

theorem looseForm_ok : (validate looseForm.toJson).ok = true := by
  decide +kernel

theorem looseForm_read : App.ofJson looseForm.toJson = .ok looseForm := by
  decide +kernel

theorem looseForm_owner :
    App.ofJson looseForm.toJson = .ok looseForm ∧ (validate looseForm.toJson).ok = true ∧
      looseForm.stateModel.has "late_fee" = false ∧
        ∃ a ∈ looseForm.textAreas,
          (∀ b ∈ looseForm.textAreas, b.stateKey = looseForm.keyFor "late_fee" ↔ b = a) ∧
          (a.Bears "late_fee" ∨ a.HasLooseName (normalizeKey "late_fee")) ∧
          (a.Bears "late_fee" ↔ ∃ b ∈ looseForm.textAreas, b.label = "late_fee") := by
  have howner := prompt_name_owner (e := looseForm.events.head (by decide)) looseForm_read
    (List.head_mem _) (List.mem_singleton.2 rfl) (.inr (List.mem_singleton.2 rfl)) (by decide)
  exact ⟨looseForm_read, looseForm_ok, by decide, howner.1 looseForm_ok⟩

/-- A form with a label outside the Latin script, and a prompt that asks for something else. -/
def nameForm : App :=
  promptForm [.textArea ⟨"input", "Имя", "name", ⟨none, none⟩⟩] ["name"] "{{???}}" ["???"]

theorem nameForm_accepted : (validate nameForm.toJson).accepted? = some nameForm := by
  decide +kernel

/-- A name can reach a text area that does not bear it and with a spelling that says nothing: the token stands
for the state key, because the label has no letter of the Latin script either. -/
theorem emptySpelling_captured :
    ¬ ∀ (raw : Json) (app : App), (validate raw).accepted? = some app →
      ∀ e ∈ app.events, ∀ id spec, Node.prompt id spec ∈ e.graph.nodes →
        ∀ name, name ∈ Template.keys spec.template ∨ name ∈ spec.declared →
          app.stateModel.has name = false →
            ∃ a ∈ app.textAreas, a.stateKey = app.keyFor name ∧
              (a.Bears name ∨ normalizeKey name ≠ "" ∧ a.HasLooseName (normalizeKey name)) := by
  intro h
  obtain ⟨a, ha, _, hreach⟩ := h _ _ nameForm_accepted _ (List.mem_singleton.2 rfl) "ask" _
    (List.mem_singleton.2 rfl) "???" (.inr (List.mem_singleton.2 rfl)) (by decide)
  have hbears : ∀ b ∈ nameForm.textAreas, ¬ b.Bears "???" := by decide
  have hempty : normalizeKey "???" = "" := by decide +kernel
  rcases hreach with hbear | ⟨hspelling, _⟩
  · exact hbears a ha hbear
  · exact hspelling hempty

end FormFlow
