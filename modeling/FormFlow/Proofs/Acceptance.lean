import FormFlow.Compilation
import FormFlow.Proofs.AliasPriority

/-!
# What an accepted application is known to satisfy

Validation accumulates findings, and an application is accepted when none of them is an error.  Each
lemma here turns "no error among the findings of a check" into what the check is about.

## Principal results

* `mem_checkEach` — a check along a list, with the elements before each;
* `accepted?_eq_some_iff` — the accepted applications are those without an error;
* `compile_of_issues`, `compile_of_accepted`, `compile_of_not_accepted` — what compiling gives;
* `App.Accepted.stateKey_has`, `App.Accepted.prompt` — what acceptance says of text areas and prompts;
* `App.Accepted.nodeIds_nodup`, `App.Accepted.acyclic` — what it says of graphs.
-/

namespace FormFlow

/-! ## Findings without an error -/

/-- No finding of a list refuses the application. -/
def Harmless (ds : List Diagnostic) : Prop := ∀ d ∈ ds, d.isError = false

theorem harmless_append {ds es : List Diagnostic} :
    Harmless (ds ++ es) ↔ Harmless ds ∧ Harmless es := by
  simp only [Harmless, List.mem_append]
  constructor
  · intro h
    exact ⟨fun d hd => h d (.inl hd), fun d hd => h d (.inr hd)⟩
  · rintro ⟨hds, hes⟩ d (hd | hd)
    · exact hds d hd
    · exact hes d hd

theorem harmless_flatMap {α : Type} {as : List α} {f : α → List Diagnostic} :
    Harmless (as.flatMap f) ↔ ∀ a ∈ as, Harmless (f a) := by
  simp only [Harmless, List.mem_flatMap]
  constructor
  · intro h a ha d hd
    exact h d ⟨a, ha, hd⟩
  · rintro h d ⟨a, ha, hd⟩
    exact h a ha d hd

theorem harmless_map {α : Type} {as : List α} {f : α → Diagnostic} (hf : ∀ a, (f a).isError = true) :
    Harmless (as.map f) ↔ as = [] := by
  constructor
  · intro h
    refine List.eq_nil_iff_forall_not_mem.2 fun a ha => ?_
    have := h (f a) (List.mem_map_of_mem ha)
    rw [hf a] at this
    cases this
  · rintro rfl
    simp [Harmless]

theorem harmless_ite {b : Bool} {d : Diagnostic} (hd : d.isError = true) :
    Harmless (if b then [] else [d]) ↔ b = true := by
  cases b <;> simp [Harmless, hd]

/-- The findings along a list are those at each element, given the elements before it. -/
theorem mem_checkEach {α : Type} {check : List α → α → List Diagnostic} {earlier as : List α}
    {d : Diagnostic} :
    d ∈ checkEach check earlier as ↔
      ∃ front a back, as = front ++ a :: back ∧ d ∈ check (earlier ++ front) a := by
  induction as generalizing earlier with
  | nil => simp [checkEach]
  | cons b as ih =>
    rw [checkEach, List.mem_append, ih]
    constructor
    · rintro (hb | ⟨front, a, back, rfl, ha⟩)
      · exact ⟨[], b, as, rfl, by rwa [List.append_nil]⟩
      · exact ⟨b :: front, a, back, rfl, by rwa [List.append_assoc, List.singleton_append] at ha⟩
    · rintro ⟨front, a, back, heq, ha⟩
      cases front with
      | nil =>
        cases heq
        rw [List.append_nil] at ha
        exact .inl ha
      | cons c front =>
        cases heq
        exact .inr ⟨front, a, back, rfl, by rwa [List.append_assoc, List.singleton_append]⟩

theorem harmless_checkEach {α : Type} {check : List α → α → List Diagnostic} {earlier as : List α} :
    Harmless (checkEach check earlier as) ↔
      ∀ front a back, as = front ++ a :: back → Harmless (check (earlier ++ front) a) := by
  constructor
  · intro h front a back heq d hd
    exact h d (mem_checkEach.2 ⟨front, a, back, heq, hd⟩)
  · intro h d hd
    obtain ⟨front, a, back, heq, ha⟩ := mem_checkEach.1 hd
    exact h front a back heq d ha

theorem nodup_of_fresh {as : List String}
    (h : ∀ front a back, as = front ++ a :: back → a ∉ front) : as.Nodup := by
  induction as with
  | nil => exact List.nodup_nil
  | cons b as ih =>
    refine List.nodup_cons.2 ⟨fun hb => ?_, ih fun front a back heq ha => ?_⟩
    · obtain ⟨front, back, rfl⟩ := List.append_of_mem hb
      exact h (b :: front) b back rfl (List.mem_cons_self ..)
    · exact h (b :: front) a back (by rw [heq]; rfl) (List.mem_cons_of_mem _ ha)

/-- A graph passes its checks exactly when its node ids are distinct, its edges join declared nodes and
it has no cycle. -/
theorem harmless_checkGraph {eventId : String} {g : ActionGraph} :
    Harmless (checkGraph eventId g) ↔
      g.nodeIds.Nodup ∧ (GraphOrder.compute g.nodeIds g.edges).unknownEdges = [] ∧
        (GraphOrder.compute g.nodeIds g.edges).isAcyclic = true := by
  unfold checkGraph
  rw [harmless_append, harmless_append, harmless_map (fun _ => by rfl), harmless_ite (by rfl),
    and_assoc]
  refine and_congr_left fun _ => harmless_checkEach.trans ?_
  constructor
  · intro h
    refine nodup_of_fresh fun front a back heq ha => ?_
    have := h front a back heq
    rw [List.nil_append, if_pos (List.contains_iff_mem.2 ha)] at this
    cases this _ (List.mem_singleton.2 rfl)
  · intro h front a back heq
    rw [heq, List.nodup_append] at h
    have ha : a ∉ front := fun ha => h.2.2 a ha a (List.mem_cons_self ..) rfl
    rw [List.nil_append, if_neg (by simpa using ha)]
    simp [Harmless]

/-! ## Acceptance -/

/-- No check of an application finds an error. -/
def App.Accepted (app : App) : Prop := Harmless (checkApp app)

/-- The accepted applications are those that are read and hold no error. -/
theorem accepted?_eq_some_iff {raw : Json} {app : App} :
    (validate raw).accepted? = some app ↔ App.ofJson raw = .ok app ∧ app.Accepted := by
  have hok : (validate raw).ok = true ↔ ∃ app, App.ofJson raw = .ok app ∧ app.Accepted :=
    validate_ok_iff
  unfold Validation.accepted?
  constructor
  · intro h
    split at h
    · rename_i htrue
      obtain ⟨read, hread, hclean⟩ := hok.1 htrue
      rw [validate, hread] at h
      cases h
      exact ⟨hread, hclean⟩
    · cases h
  · rintro ⟨hread, hclean⟩
    rw [if_pos (hok.2 ⟨app, hread, hclean⟩), validate, hread]

theorem compile_of_issues {settings : Settings} {raw : Json} {found : List Schema.Issue}
    (h : App.ofJson raw = .issues found) :
    compile settings raw = .ok ⟨(validate raw).diagnostics, none⟩ := by
  rw [compile_refused_iff, Option.eq_none_iff_forall_ne_some]
  intro app happ
  obtain ⟨hread, _⟩ := accepted?_eq_some_iff.1 happ
  rw [h] at hread
  cases hread

theorem compile_of_accepted {settings : Settings} {raw : Json} {app : App} (hread : App.ofJson raw = .ok app)
    (haccepted : app.Accepted) :
    compile settings raw =
      (release settings app.normalize).map (⟨(validate raw).diagnostics, some ·⟩) := by
  unfold compile
  dsimp only
  rw [accepted?_eq_some_iff.2 ⟨hread, haccepted⟩]

theorem compile_of_not_accepted {settings : Settings} {raw : Json} {app : App}
    (hread : App.ofJson raw = .ok app) (hrefused : ¬ app.Accepted) :
    compile settings raw = .ok ⟨(validate raw).diagnostics, none⟩ := by
  rw [compile_refused_iff, Option.eq_none_iff_forall_ne_some]
  intro found hfound
  obtain ⟨hfound, haccepted⟩ := accepted?_eq_some_iff.1 hfound
  rw [hread] at hfound
  cases hfound
  exact hrefused haccepted

namespace App.Accepted

variable {app : App} {e : EventDefinition}

theorem event (h : app.Accepted) (he : e ∈ app.events) :
    Harmless (checkGraph e.id e.graph) ∧ ∀ n ∈ e.graph.nodes, Harmless (checkNode app e n) := by
  unfold App.Accepted checkApp checkEvents at h
  obtain ⟨front, back, heq⟩ := List.append_of_mem he
  have hevent := harmless_checkEach.1 (harmless_append.1 h).2 front e back heq
  unfold checkEvent at hevent
  rw [harmless_append, harmless_append, harmless_flatMap] at hevent
  exact ⟨hevent.1.2, hevent.2⟩

/-- The state key of a text area belongs to the state model. -/
theorem stateKey_has (h : app.Accepted) {a : TextArea} (ha : a ∈ app.textAreas) :
    app.stateModel.has a.stateKey = true := by
  unfold App.Accepted checkApp checkComponents at h
  obtain ⟨c, hc, harea⟩ := List.mem_filterMap.1 ha
  obtain ⟨front, back, heq⟩ := List.append_of_mem hc
  have hcomponent := harmless_checkEach.1 (harmless_append.1 h).1 front c back heq
  unfold checkComponent checkBinding at hcomponent
  cases c with
  | textArea area =>
    cases harea
    rw [harmless_append, harmless_append] at hcomponent
    have hbinding := (harmless_append.1 hcomponent.1.2).1
    exact (harmless_ite (by rfl)).1 hbinding
  | button b => cases harea
  | dataTable t => cases harea

theorem nodeIds_nodup (h : app.Accepted) (he : e ∈ app.events) : e.graph.nodeIds.Nodup :=
  (harmless_checkGraph.1 (h.event he).1).1

/-- The graph of an event has no cycle. -/
theorem acyclic (h : app.Accepted) (he : e ∈ app.events) :
    (GraphOrder.compute e.graph.nodeIds e.graph.edges).isAcyclic = true :=
  (harmless_checkGraph.1 (h.event he).1).2.2

/-- The tokens and variables of a prompt stand for state keys, and those of the tokens are declared. -/
theorem prompt (h : app.Accepted) (he : e ∈ app.events) {id : String} {spec : PromptSpec}
    (hn : Node.prompt id spec ∈ e.graph.nodes) :
    (∀ t ∈ Template.keys spec.template,
        app.stateModel.has (resolve (aliasTable app.components) t) = true ∧
          resolve (aliasTable app.components) t ∈
            spec.declared.map (resolve (aliasTable app.components))) ∧
      ∀ v ∈ spec.declared, app.stateModel.has (resolve (aliasTable app.components) v) = true := by
  have hnode := (h.event he).2 _ hn
  unfold checkNode checkPrompt at hnode
  rw [harmless_append, harmless_append, harmless_map (fun _ => by rfl), harmless_map (fun _ => by rfl),
    harmless_map (fun _ => by rfl)] at hnode
  obtain ⟨⟨htokens, hvariables⟩, hdeclared⟩ := hnode
  simp only [List.filter_eq_nil_iff, Bool.not_eq_true', Bool.not_eq_false, Bool.and_eq_true,
    not_and] at htokens hvariables hdeclared
  refine ⟨fun t ht => ⟨htokens t ht, ?_⟩, hvariables⟩
  have := hdeclared t ht (htokens t ht)
  exact List.contains_iff_mem.1 this

end App.Accepted

end FormFlow
