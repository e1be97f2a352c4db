import FormFlow.App.Normalization
import FormFlow.Proofs.AliasPriority
import FormFlow.Proofs.PromptKeys

/-!
# Normalizing a normal form

Normalizing twice resolves every name twice.  For a declared variable that changes nothing, since a state
key stands for itself.  A token is written between braces and scanned again, and what is read there is the
state key only if the key is plain: blanks at its edges are dropped, and a closing brace ends the token.
The second time the token then may stand for another text area.

`StableInBraces` says of one key that written between braces and read back it is written the same.  A template is
left alone exactly when the keys of its tokens are stable in braces, whatever stands between the tokens.

## Principal results

* `Template.rekey_eq_self_iff` — the templates that replacing keys leaves alone;
* `Template.rekey_rekey_eq_iff` — the templates that are done after one replacement;
* `App.normalize_eq_iff` — when normalizing twice is normalizing once;
* `normalize_again` — the same, with a condition on the state keys that is enough.
-/

namespace FormFlow

namespace Template

/-! ## Templates that stay as they are -/

section

variable {resolve : String → String} {ps : List Piece}

/-- Replacing keys takes no closing brace away. -/
theorem count_source_le (resolve : String → String) (hps : ∀ p ∈ ps, p.Scanned) :
    (ps.flatMap Piece.source).count '}' ≤ (ps.flatMap (Piece.rekey resolve)).count '}' := by
  induction ps with
  | nil => exact Nat.le_refl _
  | cons p ps ih =>
    have ih := ih fun q hq => hps q (List.mem_cons_of_mem _ hq)
    rw [List.flatMap_cons, List.flatMap_cons, List.count_append, List.count_append]
    cases p with
    | char c => exact Nat.add_le_add_left ih _
    | token inner =>
      obtain ⟨_, hinner⟩ := hps _ (List.mem_cons_self ..)
      have hnone : inner.count '}' = 0 := List.count_eq_zero.2 hinner
      refine Nat.add_le_add ?_ ih
      simp [Piece.source, Piece.rekey, List.count_append, hnone]

/-- If a replaced token and what follows it read as before, the new key holds no closing brace. -/
theorem noBrace_of_rekey_eq {inner : List Char} (hinner : '}' ∉ inner) (hps : ∀ p ∈ ps, p.Scanned)
    (h : (Piece.token inner).rekey resolve ++ ps.flatMap (Piece.rekey resolve) =
      (Piece.token inner).source ++ ps.flatMap Piece.source) :
    '}' ∉ (resolve (keyOf inner)).toList := by
  have hnone : inner.count '}' = 0 := List.count_eq_zero.2 hinner
  have hle := count_source_le resolve hps
  have hcount := congrArg (List.count '}') h
  simp only [Piece.rekey, Piece.source, List.cons_append, List.count_cons, List.count_append,
    hnone] at hcount
  exact List.count_eq_zero.1 (by omega)

theorem append_brace_inj {cs ds rest tail : List Char} (hcs : '}' ∉ cs) (hds : '}' ∉ ds)
    (h : cs ++ '}' :: rest = ds ++ '}' :: tail) : cs = ds ∧ rest = tail := by
  have hbefore := congrArg (List.takeWhile (· ≠ '}')) h
  have hbehind := congrArg (List.dropWhile (· ≠ '}')) h
  rw [(takeWhile_append_brace hcs _).1, (takeWhile_append_brace hds _).1] at hbefore
  rw [(takeWhile_append_brace hcs _).2, (takeWhile_append_brace hds _).2] at hbehind
  exact ⟨hbefore, (List.cons.inj hbehind).2⟩

/-- Pieces are left alone together only if each token is: no new key holds a closing brace, so each token
ends where it did. -/
theorem flatMap_rekey_eq_iff (hps : ∀ p ∈ ps, p.Scanned) :
    ps.flatMap (Piece.rekey resolve) = ps.flatMap Piece.source ↔
      ∀ inner, .token inner ∈ ps → resolve (keyOf inner) = String.ofList inner := by
  induction ps with
  | nil => simp
  | cons p ps ih =>
    have htail : ∀ q ∈ ps, q.Scanned := fun q hq => hps q (List.mem_cons_of_mem _ hq)
    rw [List.flatMap_cons, List.flatMap_cons]
    cases p with
    | char c => simp [Piece.rekey, Piece.source, ih htail]
    | token inner =>
      obtain ⟨_, hinner⟩ := hps _ (List.mem_cons_self ..)
      have hsplit : (∀ other, .token other ∈ Piece.token inner :: ps →
          resolve (keyOf other) = String.ofList other) ↔
          resolve (keyOf inner) = String.ofList inner ∧
            ps.flatMap (Piece.rekey resolve) = ps.flatMap Piece.source := by
        rw [ih htail]
        simp
      rw [hsplit]
      constructor
      · intro heq
        have hkey := noBrace_of_rekey_eq hinner htail heq
        simp only [Piece.rekey, Piece.source, List.cons_append, List.append_assoc, List.nil_append,
          List.cons.injEq, true_and] at heq
        obtain ⟨hsame, hrest⟩ := append_brace_inj hkey hinner heq
        refine ⟨?_, (List.cons.inj hrest).2⟩
        rw [← String.ofList_toList (s := resolve (keyOf inner)), hsame]
      · rintro ⟨hkey, hrest⟩
        rw [hrest, Piece.rekey, hkey, String.toList_ofList, Piece.source]

end

variable {resolve : String → String}

/-- **Replacing keys leaves a template alone exactly when each token holds what its key is replaced by**,
without blanks around it. -/
theorem rekey_eq_self_iff {template : String} :
    rekey resolve template = template ↔
      ∀ inner, .token inner ∈ scan template.toList → resolve (keyOf inner) = String.ofList inner := by
  rw [← flatMap_rekey_eq_iff (scan_scanned template.toList), scan_source, rekey]
  constructor
  · intro h
    have hchars := congrArg String.toList h
    rwa [String.toList_ofList] at hchars
  · intro h
    rw [h, String.ofList_toList]

/-- A key that is written the same when it was written between braces and is read back. -/
def StableInBraces (resolve : String → String) (key : String) : Prop :=
  rekey resolve (braced key) = braced key

instance (resolve : String → String) (key : String) : Decidable (StableInBraces resolve key) :=
  inferInstanceAs (Decidable (_ = _))

/-- **A template is done after one replacement exactly when its new keys settle.** -/
theorem rekey_rekey_eq_iff {template : String} :
    rekey resolve (rekey resolve template) = rekey resolve template ↔
      ∀ name ∈ lookups template, StableInBraces resolve (resolve name) := by
  have htoken : ∀ inner, Piece.rekey resolve (.token inner) =
      (braced (resolve (keyOf inner))).toList := by
    intro inner
    rw [braced, String.toList_ofList, Piece.rekey]
  unfold StableInBraces
  simp only [rekey_eq_self_iff]
  rw [rekey, String.toList_ofList, scan_rekey]
  constructor
  · intro h name hname inner hinner
    obtain ⟨p, hp, hkey⟩ := List.mem_filterMap.1 hname
    cases p with
    | char c => cases hkey
    | token old =>
      cases hkey
      refine h inner (List.mem_flatMap.2 ⟨_, hp, ?_⟩)
      rw [htoken]
      exact hinner
  · intro h inner hinner
    obtain ⟨p, hp, hinner⟩ := List.mem_flatMap.1 hinner
    cases p with
    | char c =>
      rw [Piece.rekey, scan_char] at hinner
      cases List.mem_singleton.1 hinner
    | token old =>
      rw [htoken] at hinner
      exact h (keyOf old) (List.mem_filterMap.2 ⟨_, hp, rfl⟩) inner hinner

theorem stableInBraces_empty (resolve : String → String) : StableInBraces resolve "" := by
  rw [StableInBraces, rekey_eq_self_iff, braced, String.toList_ofList]
  intro inner hinner
  have hscan : scan ('{' :: '{' :: "".toList ++ ['}', '}']) = _ := scan_braced_empty
  rw [hscan] at hinner
  simp at hinner

/-- A key without a closing brace is stable when it stands for itself without the blanks around it. -/
theorem stableInBraces_iff {key : String} (hne : key ≠ "") (hbrace : '}' ∉ key.toList) :
    StableInBraces resolve key ↔ resolve (keyOf key.toList) = key := by
  rw [StableInBraces, rekey_eq_self_iff, braced, String.toList_ofList, scan_braces (by simpa using hne) hbrace]
  simp

theorem Plain.stableInBraces {key : String} (h : Plain key) (hself : resolve key = key) :
    StableInBraces resolve key := by
  rw [stableInBraces_iff h.nonempty h.noBrace, keyOf_plain h]
  exact hself

end Template

/-! ## Resolving twice -/

theorem PromptSpec.normalize_declared (components : List Component) (spec : PromptSpec) :
    ((spec.normalize (aliasTable components)).normalize (aliasTable components)).declared =
      (spec.normalize (aliasTable components)).declared := by
  simp [normalize, resolve_aliasTable_idem]

theorem PromptSpec.normalize_eq_iff {components : List Component} {spec : PromptSpec} :
    (spec.normalize (aliasTable components)).normalize (aliasTable components) =
        spec.normalize (aliasTable components) ↔
      ∀ name ∈ Template.lookups spec.template,
        Template.StableInBraces (resolve (aliasTable components)) (resolve (aliasTable components) name) := by
  have hdeclared := normalize_declared components spec
  rw [← Template.rekey_rekey_eq_iff]
  constructor
  · exact fun h => congrArg PromptSpec.template h
  · intro h
    unfold normalize at hdeclared ⊢
    dsimp only at hdeclared ⊢
    rw [h, hdeclared]

theorem Node.normalize_eq_iff {components : List Component} {node : Node} :
    (node.normalize (aliasTable components)).normalize (aliasTable components) =
        node.normalize (aliasTable components) ↔
      ∀ id spec, node = .prompt id spec →
        ∀ name ∈ Template.lookups spec.template,
          Template.StableInBraces (resolve (aliasTable components)) (resolve (aliasTable components) name) := by
  cases node with
  | prompt id spec => simp [Node.normalize, PromptSpec.normalize_eq_iff]
  | validate id keys => simp [Node.normalize]
  | transform id targets => simp [Node.normalize]

/-- **Normalizing twice is normalizing once exactly when the key of every token is stable in braces.** -/
theorem App.normalize_eq_iff {app : App} :
    app.normalize.normalize = app.normalize ↔
      ∀ e ∈ app.events, ∀ id spec, .prompt id spec ∈ e.graph.nodes →
        ∀ name ∈ Template.lookups spec.template, Template.StableInBraces app.keyFor (app.keyFor name) := by
  have hevents : app.normalize.normalize = app.normalize ↔
      ∀ e ∈ app.events, ∀ node ∈ e.graph.nodes,
        (node.normalize (aliasTable app.components)).normalize (aliasTable app.components) =
          node.normalize (aliasTable app.components) := by
    simp [App.normalize, EventDefinition.normalize, ActionGraph.normalize, Function.comp_def]
  rw [hevents]
  refine forall₂_congr fun e _ => ?_
  simp only [Node.normalize_eq_iff]
  constructor
  · intro h id spec hnode
    exact h _ hnode id spec rfl
  · rintro h node hnode id spec rfl
    exact h id spec hnode

/-- **What normalizing a normal form does**, for every application.  It changes nothing exactly when the
state key of each token, or the token itself where it stands for none, is stable in braces.  That is so whenever no
state key of a text area holds a closing brace and each stands for itself without the blanks around it.
Variables never change. -/
theorem normalize_again (app : App) :
    (app.normalize.normalize = app.normalize ↔
        ∀ e ∈ app.events, ∀ id spec, .prompt id spec ∈ e.graph.nodes →
          ∀ name ∈ Template.lookups spec.template, Template.StableInBraces app.keyFor (app.keyFor name)) ∧
      ((∀ a ∈ app.textAreas, '}' ∉ a.stateKey.toList ∧
          app.keyFor (Template.keyOf a.stateKey.toList) = a.stateKey) →
        app.normalize.normalize = app.normalize) ∧
      ∀ spec : PromptSpec, ((spec.normalize (aliasTable app.components)).normalize
          (aliasTable app.components)).declared =
        (spec.normalize (aliasTable app.components)).declared := by
  refine ⟨App.normalize_eq_iff, fun hareas => App.normalize_eq_iff.2 fun e _ id spec _ name hname => ?_,
    PromptSpec.normalize_declared app.components⟩
  rcases resolve_aliasTable_cases app.components name with ⟨a, ha, hkey, _⟩ | ⟨hself, _⟩
  · obtain ⟨hbrace, htrimmed⟩ := hareas a ha
    have hkey : app.keyFor name = a.stateKey := hkey.symm
    rw [hkey]
    by_cases hempty : a.stateKey = ""
    · rw [hempty]
      exact Template.stableInBraces_empty _
    · exact (Template.stableInBraces_iff hempty hbrace).2 htrimmed
  · -- A name that stands for itself was read from the template, so it is blank or plain.
    have hself : app.keyFor name = name := hself
    rw [hself]
    by_cases hempty : name = ""
    · rw [hempty]
      exact Template.stableInBraces_empty _
    · have htoken : name ∈ Template.keys spec.template := by
        rw [Template.keys_eq_lookups, List.mem_filter]
        exact ⟨hname, by simpa using hempty⟩
      exact (Template.plain_of_mem_keys htoken).stableInBraces hself

/-- Two text areas whose state keys differ only by a blank at the end. -/
def twinForm : App :=
  promptForm [.textArea ⟨"input", "Notes", "notes ", ⟨none, none⟩⟩,
      .textArea ⟨"other", "Remarks", "notes", ⟨none, none⟩⟩]
    ["notes ", "notes"] "Summarize {{Notes}}" ["Notes"]

/-- The token comes to stand for the first of the two, and then for the second. -/
theorem normalize_twinForm :
    ¬ ∀ (raw : Json) (app : App), App.ofJson raw = .ok app →
      app.normalize.normalize = app.normalize := by
  intro h
  have hread : App.ofJson twinForm.toJson = .ok twinForm := by decide +kernel
  have hstable := App.normalize_eq_iff.1 (h _ _ hread) _ (List.mem_singleton.2 rfl) "ask" _
    (List.mem_singleton.2 rfl) "Notes" (by decide +kernel)
  have hnot : ¬ Template.StableInBraces twinForm.keyFor (twinForm.keyFor "Notes") := by decide +kernel
  exact hnot hstable

end FormFlow
