import FormFlow.Proofs.ReadingOrder
import FormFlow.Proofs.Respelling

/-!
# Compiling up to the order of members

Applications that differ in the order of their mappings alone are accepted together, have normal forms that
differ so, and are written as values that differ in the order of members alone.  Every file and the fingerprint
hold the canonical form of such a value, where the order is gone.

## Principal results

* `App.Matches.accepted_iff` — the order of mappings makes no difference to what is accepted;
* `App.Matches.normalize`, `App.Matches.toJson` — normal forms, and what is written;
* `App.Matches.release` — two releases with the same files, image, tags and fingerprint;
* `compile_permuted` — the order of members makes no difference to compiling.
-/

namespace FormFlow

open Json (Alike)

/-! ## What the order of mappings leaves the same -/

/-- Elements that correspond have the same images, where they have any. -/
theorem filterMap_eq_of_forall₂ {α β : Type} {R : α → α → Prop} {f : α → Option β} {as bs : List α}
    (h : List.Forall₂ R as bs) (hR : ∀ a b, R a b → f b = f a) : bs.filterMap f = as.filterMap f := by
  induction h with
  | nil => rfl
  | cons hab _ ih => rw [List.filterMap_cons, List.filterMap_cons, hR _ _ hab, ih]

/-- What is told of a button: its id, and the event of a click. -/
def Button.click (b : Button) : String × Option String := (b.id, b.onClick?)

namespace Component.Matches

variable {c d : Component}

theorem id_eq (h : c.Matches d) : d.id = c.id := by
  cases h <;> rfl

theorem boundKey?_eq (h : c.Matches d) : d.boundKey? = c.boundKey? := by
  cases h <;> rfl

theorem textArea?_eq (h : c.Matches d) : d.textArea? = c.textArea? := by
  cases h <;> rfl

theorem click_eq (h : c.Matches d) : d.button?.map Button.click = c.button?.map Button.click := by
  cases h with
  | textArea area => rfl
  | dataTable table => rfl
  | button same =>
    simp only [Component.button?, Option.map_some, Button.click, Button.onClick?, same.get?_eq]

end Component.Matches

namespace App.Matches

variable {app other : App}

theorem aliasTable_eq (h : app.Matches other) : aliasTable other.components = aliasTable app.components := by
  unfold aliasTable
  rw [filterMap_eq_of_forall₂ h.components fun _ _ hcd => hcd.textArea?_eq]

theorem keyFor_eq (h : app.Matches other) : other.keyFor = app.keyFor := by
  funext name
  unfold App.keyFor
  rw [h.aliasTable_eq]

theorem clicks_eq (h : app.Matches other) :
    other.buttons.map Button.click = app.buttons.map Button.click := by
  unfold App.buttons
  rw [List.map_filterMap, List.map_filterMap]
  exact filterMap_eq_of_forall₂ h.components fun _ _ hcd => hcd.click_eq

theorem eventIds_eq (h : app.Matches other) :
    other.events.map EventDefinition.id = app.events.map EventDefinition.id :=
  map_eq_of_forall₂ h.events fun _ _ he => he.id.symm

theorem isStateKey_iff (h : app.Matches other) {key : String} :
    key ∈ other.stateModel.keys ↔ key ∈ app.stateModel.keys :=
  h.stateModel.mem_keys_iff.symm

end App.Matches

/-! ## Validation -/

theorem App.harmless_checkComponents_iff {app other : App} (h : app.Matches other) :
    Harmless (checkComponents app) ↔ Harmless (checkComponents other) := by
  have hclicks (a : App) : a.buttons.filterMap Button.onClick? =
      (a.buttons.map Button.click).filterMap Prod.snd := by
    rw [List.filterMap_map]
    rfl
  rw [harmless_checkComponents, harmless_checkComponents, hclicks, hclicks, h.clicks_eq,
    map_eq_of_forall₂ h.components fun _ _ hcd => hcd.id_eq,
    filterMap_eq_of_forall₂ h.components fun _ _ hcd => hcd.boundKey?_eq]
  simp only [h.isStateKey_iff]

theorem Node.Matches.id_eq {node other : Node} (h : node.Matches other) : other.id = node.id := by
  cases h <;> rfl

theorem EventDefinition.Matches.nodeIds_eq {e other : EventDefinition} (h : e.Matches other) :
    other.graph.nodeIds = e.graph.nodeIds :=
  map_eq_of_forall₂ h.nodes fun _ _ hnode => hnode.id_eq

theorem PromptSpec.Matches.grounds_iff {app other : App} (h : app.Matches other) {spec same : PromptSpec}
    (hspec : spec.Matches same) : app.Grounds spec ↔ other.Grounds same := by
  rw [App.grounds_iff, App.grounds_iff, h.keyFor_eq, hspec.template, hspec.declared]
  simp only [h.isStateKey_iff]

theorem App.admits_iff {app : App} {g : ActionGraph} {targets : Table String} :
    app.Admits g targets ↔ ∀ entry ∈ targets, entry.1 ∈ app.stateModel.keys ∧
      ∀ id, Expression.parse entry.2 = .reference id → id ∈ g.nodeIds := by
  constructor
  · intro h entry hentry
    exact ⟨h.targetKeys entry hentry, h.references entry hentry⟩
  · intro h
    exact ⟨fun entry hentry => (h entry hentry).1, fun entry hentry => (h entry hentry).2⟩

/-- The checks of a node refuse it in both applications or in neither. -/
theorem Node.Matches.harmless_iff {app other : App} (h : app.Matches other) {e f : EventDefinition}
    (he : e.Matches f) {node same : Node} (hnode : node.Matches same) :
    Harmless (checkNode app e node) ↔ Harmless (checkNode other f same) := by
  cases hnode with
  | validate id keys => rfl
  | prompt id hspec => exact harmless_checkPrompt.trans ((hspec.grounds_iff h).trans harmless_checkPrompt.symm)
  | transform id htargets =>
    refine harmless_checkTransform.trans (Iff.trans ?_ harmless_checkTransform.symm)
    rw [App.admits_iff, App.admits_iff, he.nodeIds_eq]
    simp only [h.isStateKey_iff, htargets.perm.mem_iff]

/-- **The order of mappings makes no difference to what is accepted.** -/
theorem App.Matches.accepted_iff {app other : App} (h : app.Matches other) :
    app.Accepted ↔ other.Accepted := by
  unfold Accepted checkApp
  rw [harmless_append, harmless_append, App.harmless_checkComponents_iff h, harmless_checkEvents,
    harmless_checkEvents, h.eventIds_eq]
  simp only [← harmless_checkNodes, harmless_flatMap]
  refine and_congr_right' (and_congr_right' (forall_mem_iff_of_forall₂ h.events fun e f he => ?_))
  rw [he.trigger, ActionGraph.wellFormed_congr he.nodeIds_eq he.edges.symm,
    map_eq_of_forall₂ h.components fun _ _ hcd => hcd.id_eq]
  exact and_congr_right' (and_congr_right' (forall_mem_iff_of_forall₂ he.nodes fun _ _ hnode =>
    hnode.harmless_iff h he))

/-! ## The normal form -/

theorem Node.Matches.normalize {node other : Node} (h : node.Matches other) (aliases : Table String) :
    (node.normalize aliases).Matches (other.normalize aliases) := by
  cases h with
  | validate id keys => exact .validate id keys
  | prompt id hspec =>
    refine .prompt id ⟨?_, ?_, hspec.policy, hspec.shape⟩
    · simp only [PromptSpec.normalize, hspec.template]
    · simp only [PromptSpec.normalize, hspec.declared]
  | transform id same => exact .transform id same

theorem App.Matches.normalize {app other : App} (h : app.Matches other) :
    app.normalize.Matches other.normalize := by
  refine ⟨h.appId, h.version, h.components, h.stateModel, ?_⟩
  unfold App.normalize
  rw [h.aliasTable_eq]
  refine List.forall₂_map_left_iff.2 (List.forall₂_map_right_iff.2 (h.events.imp fun e f he => ?_))
  refine ⟨he.id, he.trigger, ?_, he.edges⟩
  exact List.forall₂_map_left_iff.2 (List.forall₂_map_right_iff.2 (he.nodes.imp fun _ _ hnode =>
    hnode.normalize _))

/-! ## What is written -/

open Json

theorem shapeJson_alike {shape other : Table Json} (h : (obj shape).Alike (obj other)) :
    (shapeJson shape).Alike (shapeJson other) := by
  have hshape := h.finitePart
  rw [finitePart, finitePart] at hshape
  simp [shapeJson, Table.keys, hshape]

theorem ofStringTable_alike {t u : Table String} (h : Table.Matches (· = ·) t u) :
    (ofStringTable t).Alike (ofStringTable u) :=
  .obj (h.map fun _ _ hab => hab ▸ .refl trivial)

theorem StateField.Matches.toJson {field other : StateField} (h : field.Matches other) :
    field.toJson.Alike other.toJson := by
  cases h with
  | primitive field =>
    obtain ⟨kind, _ | source, _ | allowed, _ | least, _ | most⟩ := field <;>
      simp [StateField.toJson, optionalMember, Table.keys, ofNat]
  | @array source shape other alike =>
    cases source <;> simp [StateField.toJson, optionalMember, Table.keys, shapeJson_alike alike]

theorem Component.Matches.toJson {c d : Component} (h : c.Matches d) : c.toJson.Alike d.toJson := by
  cases h with
  | textArea area =>
    obtain ⟨id, label, key, _ | needed, _ | most⟩ := area <;>
      simp [Component.toJson, optionalMember, Table.keys, ofNat]
  | button same => simp [Component.toJson, Table.keys, ofStringTable_alike same]
  | dataTable table => simp [Component.toJson, Table.keys]

theorem PromptSpec.Matches.toJson {spec other : PromptSpec} (h : spec.Matches other) :
    spec.toJson.Alike other.toJson := by
  have hpolicy : spec.policy.toJson.Distinct := by
    obtain ⟨provider, model, _ | temperature⟩ := spec.policy <;>
      simp [ModelPolicy.toJson, optionalMember, Table.keys, ofFloat]
  simp [PromptSpec.toJson, Table.keys, ← h.template, ← h.declared, ← h.policy, hpolicy,
    shapeJson_alike h.shape]

theorem Node.Matches.toJson {node other : Node} (h : node.Matches other) :
    node.toJson.Alike other.toJson := by
  cases h with
  | validate id keys => simp [Node.toJson, Table.keys]
  | prompt id matched => simp [Node.toJson, Table.keys, matched.toJson]
  | transform id same => simp [Node.toJson, Table.keys, ofStringTable_alike same]

/-- Lists whose elements are written alike. -/
theorem arr_map_alike {α : Type} {R : α → α → Prop} {write : α → Json} {as bs : List α}
    (h : List.Forall₂ R as bs) (hR : ∀ a b, R a b → (write a).Alike (write b)) :
    (arr (as.map write)).Alike (arr (bs.map write)) :=
  .arr (List.forall₂_map_left_iff.2 (List.forall₂_map_right_iff.2 (h.imp hR)))

theorem EventDefinition.Matches.toJson {e other : EventDefinition} (h : e.Matches other) :
    e.toJson.Alike other.toJson := by
  have hnodes := arr_map_alike h.nodes fun _ _ hnode => hnode.toJson
  have hedges : (arr (e.graph.edges.map Edge.toJson)).Distinct :=
    distinct_arr_iff.2 (List.forall_mem_map.2 fun edge _ => by simp [Edge.toJson, Table.keys])
  simp [EventDefinition.toJson, Table.keys, ← h.id, ← h.trigger, ← h.edges, hnodes, hedges]

namespace App.Matches

variable {app other : App}

theorem uiJson (h : app.Matches other) : app.uiJson.Alike other.uiJson := by
  have hcomponents := arr_map_alike h.components fun _ _ hcd => hcd.toJson
  simp [App.uiJson, Table.keys, hcomponents]

theorem stateModelJson (h : app.Matches other) : app.stateModelJson.Alike other.stateModelJson :=
  .obj (h.stateModel.map fun _ _ hfield => hfield.toJson)

theorem toJson (h : app.Matches other) : app.toJson.Alike other.toJson := by
  have hevents := arr_map_alike h.events fun _ _ he => he.toJson
  simp [App.toJson, Table.keys, ← h.appId, ← h.version, h.uiJson, h.stateModelJson, hevents]

theorem interface (h : app.Matches other) : app.interface.Alike other.interface := by
  simp [App.interface, Table.keys, ← h.appId, ← h.version, h.uiJson, h.stateModelJson]

theorem manifest_eq (h : app.Matches other) : other.manifest = app.manifest := by
  have hbound (a : App) (eventId : String) : (a.boundButton? eventId).map Button.id =
      ((a.buttons.map Button.click).reverse.find? fun click => click.2 = some eventId).map Prod.fst := by
    rw [← List.map_reverse, List.find?_map, Option.map_map]
    rfl
  have hentry (e f : EventDefinition) (he : e.Matches f) : other.manifestEntry f = app.manifestEntry e := by
    have hbutton : (other.boundButton? e.id).map Button.id = (app.boundButton? e.id).map Button.id := by
      rw [hbound, hbound, h.clicks_eq]
    have hname (a : App) (eventId : String) : ((a.boundButton? eventId).map fun b => str b.id) =
        ((a.boundButton? eventId).map Button.id).map str := by
      rw [Option.map_map]
      rfl
    unfold App.manifestEntry
    rw [← he.id, ← he.trigger, hname, hname, hbutton]
  unfold App.manifest
  rw [h.appId, h.eventIds_eq, map_eq_of_forall₂ h.events hentry]

/-- The files of both are written alike. -/
theorem writeArtifacts_eq (h : app.Matches other) (settings : Settings) :
    (artifactSources settings other).map writeArtifact = (artifactSources settings app).map writeArtifact := by
  have hroot : artifactRoot settings other = artifactRoot settings app := by
    unfold artifactRoot
    rw [h.appId]
  unfold artifactSources
  simp only [List.map_cons, List.map_nil, writeArtifact, prettyText, hroot, h.toJson.canonical?_eq,
    h.interface.canonical?_eq, h.manifest_eq]

theorem fingerprint_eq (h : app.Matches other) : fingerprint other.toJson = fingerprint app.toJson := by
  unfold fingerprint canonicalText
  rw [h.toJson.canonical?_eq]

/-- **Both releases fail in the same way, or both have the same files, image, tags and fingerprint.** -/
theorem release (h : app.Matches other) (settings : Settings) :
    (∃ e, FormFlow.release settings app = .error e ∧ FormFlow.release settings other = .error e) ∨
      ∃ r r', FormFlow.release settings app = .ok r ∧ FormFlow.release settings other = .ok r' ∧
        r'.files = r.files ∧ r'.imageName = r.imageName ∧ r'.tags = r.tags ∧
          r'.fingerprint = r.fingerprint := by
  unfold FormFlow.release
  rw [h.writeArtifacts_eq, h.fingerprint_eq, ← h.appId]
  cases firstError ((artifactSources settings app).map writeArtifact) with
  | error e => exact .inl ⟨e, rfl, rfl⟩
  | ok files =>
    cases fingerprint app.toJson with
    | error e => exact .inl ⟨e, rfl, rfl⟩
    | ok print => exact .inr ⟨_, _, rfl, rfl, rfl, rfl, rfl, rfl⟩

end App.Matches

/-! ## Compiling -/

/-- **The order of members makes no difference to compiling**, for all settings and any two values without
repeated keys that differ in the order of members alone, at any depth.  Both are refused, or compiling both
ends with the same error, or both have releases with the same files, image, tags and fingerprint. -/
theorem compile_permuted {settings : Settings} {raw other : Json} (hraw : raw.Distinct)
    (hother : other.Distinct) (h : raw.Permuted other) :
    (∃ d d', compile settings raw = .ok ⟨d, none⟩ ∧ compile settings other = .ok ⟨d', none⟩) ∨
      (∃ e, compile settings raw = .error e ∧ compile settings other = .error e) ∨
      ∃ d d' r r', compile settings raw = .ok ⟨d, some r⟩ ∧ compile settings other = .ok ⟨d', some r'⟩ ∧
        r'.files = r.files ∧ r'.imageName = r.imageName ∧ r'.tags = r.tags ∧
          r'.fingerprint = r.fingerprint := by
  have hagree := App.ofJson_respects raw other ⟨hraw, hother, h⟩
  cases hread : App.ofJson raw with
  | issues found =>
    cases hsame : App.ofJson other with
    | issues more => exact .inl ⟨_, _, compile_of_issues hread, compile_of_issues hsame⟩
    | ok app =>
      rw [hread, hsame] at hagree
      cases hagree
  | ok app =>
    cases hsame : App.ofJson other with
    | issues more =>
      rw [hread, hsame] at hagree
      cases hagree
    | ok same =>
      rw [hread, hsame] at hagree
      cases hagree with
      | ok hmatches =>
        by_cases haccepted : app.Accepted
        · rw [compile_of_accepted hread haccepted,
            compile_of_accepted hsame (hmatches.accepted_iff.1 haccepted)]
          rcases hmatches.normalize.release settings with
            ⟨e, he, he'⟩ | ⟨r, r', hr, hr', hfiles, himage, htags, hprint⟩
          · exact .inr (.inl ⟨e, by rw [he]; rfl, by rw [he']; rfl⟩)
          · exact .inr (.inr ⟨_, _, r, r', by rw [hr]; rfl, by rw [hr']; rfl, hfiles, himage, htags, hprint⟩)
        · have hrefused := fun haccept => haccepted (hmatches.accepted_iff.2 haccept)
          exact .inl ⟨_, _, compile_of_not_accepted hread haccepted, compile_of_not_accepted hsame hrefused⟩

/-- A form with two state keys. -/
def notesForm : App :=
  promptForm [.textArea ⟨"input", "Notes", "notes", ⟨none, none⟩⟩] ["notes", "tone"] "Sum up {{Notes}}"
    ["Notes"]

/-- The form, its members from last to first, and those of its state model too. -/
def turnedForm : Json :=
  obj [("events", arr (notesForm.events.map EventDefinition.toJson)),
    ("stateModel", obj (notesForm.stateModel.reverse.map fun e => (e.1, e.2.toJson))),
    ("ui", notesForm.uiJson), ("version", str "1"), ("appId", str "form")]

theorem notesForm_permuted : notesForm.toJson.Permuted turnedForm := by
  have hmodel : notesForm.stateModelJson.Permuted
      (obj (notesForm.stateModel.reverse.map fun e => (e.1, e.2.toJson))) := by
    refine .of_perm (List.reverse_perm _).symm (by decide) ?_
    exact .cons ⟨rfl, .refl _⟩ (.cons ⟨rfl, .refl _⟩ .nil)
  refine .of_perm (List.reverse_perm _).symm (by decide) ?_
  exact .cons ⟨rfl, .refl _⟩ (.cons ⟨rfl, hmodel⟩ (.cons ⟨rfl, .refl _⟩ (.cons ⟨rfl, .refl _⟩
    (.cons ⟨rfl, .refl _⟩ .nil))))

/-- Both orders have releases with the same files. -/
theorem compile_permuted_notes :
    notesForm.toJson.Distinct ∧ turnedForm.Distinct ∧ notesForm.toJson.Permuted turnedForm ∧
      ∃ d d' r r', compile Settings.default notesForm.toJson = .ok ⟨d, some r⟩ ∧
        compile Settings.default turnedForm = .ok ⟨d', some r'⟩ ∧
          r'.files = r.files ∧ r'.imageName = r.imageName ∧ r'.tags = r.tags ∧
            r'.fingerprint = r.fingerprint := by
  have hraw : notesForm.toJson.Distinct := by decide +kernel
  have hturned : turnedForm.Distinct := by decide +kernel
  refine ⟨hraw, hturned, notesForm_permuted, ?_⟩
  have hread : App.ofJson notesForm.toJson = .ok notesForm := by decide +kernel
  obtain ⟨c, r, hc, hr, _⟩ := exists_release hread (by decide +kernel)
  rcases compile_permuted hraw hturned notesForm_permuted with ⟨d, d', hd, _⟩ | ⟨e, he, _⟩ | hsame
  · rw [hc] at hd
    cases hd
    cases hr
  · rw [hc] at he
    cases he
  · exact hsame

end FormFlow
