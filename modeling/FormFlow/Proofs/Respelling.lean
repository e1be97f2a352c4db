import FormFlow.Proofs.CompiledRun
import FormFlow.Proofs.WellFormed

/-!
# Spelling a prompt in another way

A token or a variable may name a state key in several ways, by a label or a loose spelling.  `Respelled`
relates two applications that differ in nothing else: some tokens and variables are written differently,
and each still stands for the same state key.  A token keeps its boundaries whatever is written in it, so
the pieces of the respelled template are the respelled pieces.  Everything that is checked about a prompt
is about the state keys that its names stand for, and the normal form has nothing else.

## Principal results

* `Template.scan_respelled` — respelled pieces are scanned as they were written;
* `Template.Respelled.rekey_eq`, `Template.Respelled.map_keys` — what respelling leaves the same;
* `App.Respelled.accepted_iff` — respelling makes no difference to what is accepted;
* `App.Respelled.normalize_eq` — respelling makes no difference to the normal form;
* `compile_respelled` — respelling makes no difference to compiling.
-/

namespace FormFlow

namespace Template

/-! ## Templates -/

/-- A piece is left alone, or it is a token, not a blank one, and another token that stands for the same
takes its place. -/
inductive Piece.Respelled (resolve : String → String) : Piece → Piece → Prop where
  | same (p : Piece) : Respelled resolve p p
  | token {inner other : List Char} (named : keyOf inner ≠ "") (stillNamed : keyOf other ≠ "")
      (noBrace : '}' ∉ other) (agrees : resolve (keyOf other) = resolve (keyOf inner)) :
      Respelled resolve (token inner) (token other)

/-- Two templates differ only in the spelling of tokens. -/
def Respelled (resolve : String → String) (template other : String) : Prop :=
  ∃ ps, List.Forall₂ (Piece.Respelled resolve) (scan template.toList) ps ∧
    other.toList = ps.flatMap Piece.source

instance (resolve : String → String) : DecidableRel (Piece.Respelled resolve)
  | .char c, .char d =>
    decidable_of_iff (c = d) ⟨fun h => h ▸ .same _, fun h => by cases h; rfl⟩
  | .char _, .token _ => .isFalse fun h => by cases h
  | .token _, .char _ => .isFalse fun h => by cases h
  | .token inner, .token other =>
    decidable_of_iff
      (inner = other ∨ keyOf inner ≠ "" ∧ keyOf other ≠ "" ∧ '}' ∉ other ∧
        resolve (keyOf other) = resolve (keyOf inner)) <| by
      constructor
      · rintro (rfl | ⟨named, stillNamed, noBrace, agrees⟩)
        · exact .same _
        · exact .token named stillNamed noBrace agrees
      · rintro (_ | ⟨named, stillNamed, noBrace, agrees⟩)
        · exact .inl rfl
        · exact .inr ⟨named, stillNamed, noBrace, agrees⟩

theorem scan_source_of_scanned {p : Piece} (h : p.Scanned) : scan p.source = [p] := by
  cases p with
  | char c => exact scan_char c
  | token inner => exact scan_braces h.1 h.2

section

variable {resolve : String → String} {p q : Piece} {ps qs : List Piece}

theorem Piece.Respelled.scanned (h : Piece.Respelled resolve p q) (hp : p.Scanned) : q.Scanned := by
  cases h with
  | same => exact hp
  | token named stillNamed noBrace agrees =>
    refine ⟨?_, noBrace⟩
    rintro rfl
    exact stillNamed (by decide)

theorem Piece.Respelled.replaced (h : Piece.Respelled resolve p q) : p.Replaced q.source := by
  cases h with
  | same =>
    cases p with
    | char c => exact .char c
    | token inner => exact .token inner inner
  | token named stillNamed noBrace agrees => exact .token _ _

/-- **Respelled pieces are scanned as they were written.**  The boundaries of the tokens stay. -/
theorem scan_respelled {cs : List Char} (h : List.Forall₂ (Piece.Respelled resolve) (scan cs) ps) :
    scan (ps.flatMap Piece.source) = ps := by
  have hreplaced : List.Forall₂ Piece.Replaced (scan cs) (ps.map Piece.source) :=
    List.forall₂_map_right_iff.2 (h.imp fun _ _ hpq => hpq.replaced)
  rw [List.flatMap_def, scan_replaced hreplaced, List.flatMap_map]
  -- Scanned apart, each new piece gives itself again.
  have hscanned := scan_scanned cs
  clear hreplaced
  generalize scan cs = old at h hscanned
  induction h with
  | nil => rfl
  | @cons p q old ps hpq _ ih =>
    obtain ⟨hp, hold⟩ := List.forall_mem_cons.1 hscanned
    rw [List.flatMap_cons, scan_source_of_scanned (hpq.scanned hp), ih hold, List.singleton_append]

theorem Respelled.scan {template other : String} (h : Respelled resolve template other) :
    List.Forall₂ (Piece.Respelled resolve) (scan template.toList) (Template.scan other.toList) := by
  obtain ⟨ps, hps, htext⟩ := h
  rw [htext, scan_respelled hps]
  exact hps

theorem respelled_iff {template other : String} :
    Respelled resolve template other ↔
      List.Forall₂ (Piece.Respelled resolve) (Template.scan template.toList)
        (Template.scan other.toList) :=
  ⟨Respelled.scan, fun h => ⟨_, h, (scan_source other.toList).symm⟩⟩

instance (resolve : String → String) : DecidableRel (Respelled resolve) :=
  fun _ _ => decidable_of_iff _ respelled_iff.symm

/-- Replacing keys gives the same template. -/
theorem Respelled.rekey_eq {template other : String} (h : Respelled resolve template other) :
    rekey resolve other = rekey resolve template := by
  have hpieces := h.scan
  unfold rekey
  generalize Template.scan template.toList = old at hpieces
  generalize Template.scan other.toList = new at hpieces
  congr 1
  induction hpieces with
  | nil => rfl
  | cons hpq _ ih =>
    rw [List.flatMap_cons, List.flatMap_cons, ih]
    cases hpq with
    | same => rfl
    | token named stillNamed noBrace agrees => rw [Piece.rekey, Piece.rekey, agrees]

/-- The tokens stand for the same keys, in the same order. -/
theorem Respelled.map_keys {template other : String} (h : Respelled resolve template other) :
    (keys other).map resolve = (keys template).map resolve := by
  have hpieces := h.scan
  unfold keys
  generalize Template.scan template.toList = old at hpieces
  generalize Template.scan other.toList = new at hpieces
  induction hpieces with
  | nil => rfl
  | @cons p q old new hpq _ ih =>
    cases hpq with
    | same =>
      cases p with
      | char c => exact ih
      | token inner => by_cases hblank : keyOf inner = "" <;> simp [hblank, ih]
    | token named stillNamed noBrace agrees => simp [named, stillNamed, agrees, ih]

end

end Template

/-! ## Applications -/

/-- Two prompts differ only in the spelling of tokens and variables. -/
structure PromptSpec.Respelled (resolve : String → String) (spec other : PromptSpec) : Prop where
  template : Template.Respelled resolve spec.template other.template
  declared : List.Forall₂ (fun name spelling => resolve spelling = resolve name) spec.declared other.declared
  policy : other.policy = spec.policy
  shape : other.shape = spec.shape

/-- Two nodes differ only in the spelling of a prompt. -/
inductive Node.Respelled (resolve : String → String) : Node → Node → Prop where
  | same (node : Node) : Respelled resolve node node
  | prompt (id : String) {spec other : PromptSpec} (respelled : spec.Respelled resolve other) :
      Respelled resolve (.prompt id spec) (.prompt id other)

/-- Two events differ only in the spelling of prompts. -/
structure EventDefinition.Respelled (resolve : String → String) (e other : EventDefinition) : Prop where
  id : other.id = e.id
  trigger : other.trigger = e.trigger
  nodes : List.Forall₂ (Node.Respelled resolve) e.graph.nodes other.graph.nodes
  edges : other.graph.edges = e.graph.edges

/-- Two applications differ only in the spelling of prompts, and each name stands for the same as
before. -/
structure App.Respelled (app other : App) : Prop where
  appId : other.appId = app.appId
  version : other.version = app.version
  components : other.components = app.components
  stateModel : other.stateModel = app.stateModel
  events : List.Forall₂ (EventDefinition.Respelled app.keyFor) app.events other.events

/-- Elements that correspond have the same image. -/
theorem map_eq_of_forall₂ {α β : Type} {R : α → α → Prop} {f g : α → β} {as bs : List α}
    (h : List.Forall₂ R as bs) (hR : ∀ a b, R a b → g b = f a) : bs.map g = as.map f := by
  induction h with
  | nil => rfl
  | cons hab _ ih => rw [List.map_cons, List.map_cons, hR _ _ hab, ih]

theorem forall_mem_iff_of_forall₂ {α : Type} {R : α → α → Prop} {P Q : α → Prop} {as bs : List α}
    (h : List.Forall₂ R as bs) (hR : ∀ a b, R a b → (P a ↔ Q b)) : (∀ a ∈ as, P a) ↔ ∀ b ∈ bs, Q b := by
  induction h with
  | nil => simp
  | cons hab _ ih => rw [List.forall_mem_cons, List.forall_mem_cons, hR _ _ hab, ih]

/-! ## The normal form -/

section

variable {aliases : Table String}

theorem PromptSpec.Respelled.normalize_eq {spec other : PromptSpec}
    (h : spec.Respelled (resolve aliases) other) : other.normalize aliases = spec.normalize aliases := by
  unfold normalize
  rw [h.template.rekey_eq, map_eq_of_forall₂ h.declared fun _ _ hsame => hsame]
  cases other
  cases spec
  cases h.policy
  cases h.shape
  rfl

theorem Node.Respelled.normalize_eq {node other : Node} (h : node.Respelled (resolve aliases) other) :
    other.normalize aliases = node.normalize aliases := by
  cases h with
  | same => rfl
  | prompt id respelled => rw [Node.normalize, Node.normalize, respelled.normalize_eq]

theorem Node.Respelled.id_eq {resolve : String → String} {node other : Node}
    (h : node.Respelled resolve other) : other.id = node.id := by
  cases h <;> rfl

theorem EventDefinition.Respelled.nodeIds_eq {resolve : String → String} {e other : EventDefinition}
    (h : e.Respelled resolve other) : other.graph.nodeIds = e.graph.nodeIds :=
  map_eq_of_forall₂ h.nodes fun _ _ hnode => hnode.id_eq

theorem EventDefinition.Respelled.normalize_eq {e other : EventDefinition}
    (h : e.Respelled (resolve aliases) other) : other.normalize aliases = e.normalize aliases := by
  unfold normalize ActionGraph.normalize
  rw [h.id, h.trigger, h.edges, map_eq_of_forall₂ h.nodes fun _ _ hnode => hnode.normalize_eq]

end

/-- **Respelling makes no difference to the normal form.** -/
theorem App.Respelled.normalize_eq {app other : App} (h : app.Respelled other) :
    other.normalize = app.normalize := by
  unfold normalize
  rw [h.components, map_eq_of_forall₂ h.events fun _ _ he => EventDefinition.Respelled.normalize_eq he]
  rw [h.appId, h.version, h.stateModel]

/-! ## Validation -/

/-- What is asked of a prompt is asked of the state keys that its names stand for. -/
theorem App.grounds_iff {app : App} {spec : PromptSpec} :
    app.Grounds spec ↔
      (∀ key ∈ (Template.keys spec.template).map app.keyFor, key ∈ app.stateModel.keys) ∧
        (∀ key ∈ spec.declared.map app.keyFor, key ∈ app.stateModel.keys) ∧
        ∀ key ∈ (Template.keys spec.template).map app.keyFor, key ∈ spec.declared.map app.keyFor := by
  simp only [List.forall_mem_map]
  constructor
  · intro h
    exact ⟨h.tokens, h.declared, h.tokensDeclared⟩
  · rintro ⟨htokens, hdeclared, hlisted⟩
    exact ⟨htokens, hdeclared, hlisted⟩

theorem PromptSpec.Respelled.grounds_iff {app : App} {spec other : PromptSpec}
    (h : spec.Respelled app.keyFor other) : app.Grounds other ↔ app.Grounds spec := by
  rw [App.grounds_iff, App.grounds_iff, h.template.map_keys,
    map_eq_of_forall₂ h.declared fun _ _ hsame => hsame]

/-- The checks of a node refuse it under both spellings or under neither. -/
theorem Node.Respelled.harmless_iff {app : App} {e other : EventDefinition}
    (he : e.Respelled app.keyFor other) {node spelling : Node} (h : node.Respelled app.keyFor spelling) :
    Harmless (checkNode app e node) ↔ Harmless (checkNode app other spelling) := by
  cases h with
  | same =>
    cases node with
    | validate id keys => rfl
    | prompt id spec => exact harmless_checkPrompt.trans harmless_checkPrompt.symm
    | transform id targets => rw [checkNode, checkNode, he.nodeIds_eq, he.id]
  | prompt id respelled =>
    exact harmless_checkPrompt.trans (respelled.grounds_iff.symm.trans harmless_checkPrompt.symm)

theorem ActionGraph.wellFormed_congr {g h : ActionGraph} (hids : h.nodeIds = g.nodeIds)
    (hedges : h.edges = g.edges) : g.WellFormed ↔ h.WellFormed := by
  constructor
  · rintro ⟨hnodup, hknown, hacyclic⟩
    exact ⟨hids ▸ hnodup, by rwa [hedges, hids], by rwa [hedges]⟩
  · rintro ⟨hnodup, hknown, hacyclic⟩
    exact ⟨hids ▸ hnodup, by rwa [hedges, hids] at hknown, by rwa [hedges] at hacyclic⟩

/-- **Respelling makes no difference to what is accepted.** -/
theorem App.Respelled.accepted_iff {app other : App} (h : app.Respelled other) :
    app.Accepted ↔ other.Accepted := by
  obtain ⟨events, rfl⟩ : ∃ events, other = { app with events := events } := by
    obtain ⟨appId, version, components, stateModel, events⟩ := other
    cases h.appId
    cases h.version
    cases h.components
    cases h.stateModel
    exact ⟨events, rfl⟩
  have hids : events.map EventDefinition.id = app.events.map EventDefinition.id :=
    map_eq_of_forall₂ h.events fun _ _ he => he.id
  have hcomponents : checkComponents { app with events := events } = checkComponents app := rfl
  unfold Accepted checkApp
  rw [harmless_append, harmless_append, hcomponents, harmless_checkEvents, harmless_checkEvents, hids]
  simp only [← harmless_checkNodes, harmless_flatMap]
  refine and_congr_right' (and_congr_right' (forall_mem_iff_of_forall₂ h.events fun e spelling he => ?_))
  rw [he.trigger, ActionGraph.wellFormed_congr he.nodeIds_eq he.edges]
  exact and_congr_right' (and_congr_right' (forall_mem_iff_of_forall₂ he.nodes fun _ _ hnode =>
    hnode.harmless_iff he))

/-! ## Compiling -/

/-- **How a prompt is spelled makes no difference to compiling**, for all settings and any two values that
are read as applications which differ only in the spelling of tokens and variables.  Both are refused, or
compiling both ends with the same error, or both have the same release: the same normal form, files, image,
tags and fingerprint. -/
theorem compile_respelled {settings : Settings} {raw other : Json} {app spelling : App}
    (hread : App.ofJson raw = .ok app) (hother : App.ofJson other = .ok spelling)
    (h : app.Respelled spelling) :
    (∃ d d', compile settings raw = .ok ⟨d, none⟩ ∧ compile settings other = .ok ⟨d', none⟩) ∨
      (∃ e, compile settings raw = .error e ∧ compile settings other = .error e) ∨
      ∃ d d' r, compile settings raw = .ok ⟨d, some r⟩ ∧ compile settings other = .ok ⟨d', some r⟩ := by
  by_cases haccepted : app.Accepted
  · rw [compile_of_accepted hread haccepted, compile_of_accepted hother (h.accepted_iff.1 haccepted),
      h.normalize_eq]
    cases release settings app.normalize with
    | error e => exact .inr (.inl ⟨e, rfl, rfl⟩)
    | ok r => exact .inr (.inr ⟨_, _, r, rfl, rfl⟩)
  · have hrefused := fun hspelling => haccepted (h.accepted_iff.2 hspelling)
    exact .inl ⟨_, _, compile_of_not_accepted hread haccepted, compile_of_not_accepted hother hrefused⟩

/-- A form that sorts the complaints of a text area. -/
def complaintForm (template : String) (declared : List String) : App :=
  promptForm [.textArea ⟨"input", "Customer Complaint", "complaint", ⟨none, none⟩⟩] ["complaint"] template
    declared

/-- The complaint, by its state key and by its label. -/
def namedComplaint : App :=
  complaintForm "Sort {{complaint}}: {{ }}{{Customer Complaint}}\x7d" ["complaint"]

/-- The complaint, by loose spellings of both, one with a brace in it. -/
def looseComplaint : App :=
  complaintForm "Sort {{ Complaint! }}: {{ }}{{{customer complaint}}}" ["Customer Complaint"]

theorem namedComplaint_respelled : namedComplaint.Respelled looseComplaint := by
  refine ⟨rfl, rfl, rfl, rfl, .cons ⟨rfl, rfl, .cons (.prompt "ask" ⟨?_, ?_, rfl, rfl⟩) .nil, rfl⟩ .nil⟩
  · decide +kernel
  · decide +kernel

/-- Both spellings have one release. -/
theorem compile_respelled_complaint :
    App.ofJson namedComplaint.toJson = .ok namedComplaint ∧
      App.ofJson looseComplaint.toJson = .ok looseComplaint ∧
      namedComplaint.Respelled looseComplaint ∧
      ∃ d d' r, compile Settings.default namedComplaint.toJson = .ok ⟨d, some r⟩ ∧
        compile Settings.default looseComplaint.toJson = .ok ⟨d', some r⟩ := by
  have hread : App.ofJson namedComplaint.toJson = .ok namedComplaint := by decide +kernel
  have hother : App.ofJson looseComplaint.toJson = .ok looseComplaint := by decide +kernel
  refine ⟨hread, hother, namedComplaint_respelled, ?_⟩
  obtain ⟨c, r, hc, hr, _⟩ := exists_release hread (by decide +kernel)
  rcases compile_respelled hread hother namedComplaint_respelled with ⟨d, d', hd, _⟩ | ⟨e, he, _⟩ | hsame
  · rw [hc] at hd
    cases hd
    cases hr
  · rw [hc] at he
    cases he
  · exact hsame

end FormFlow
